import Mineshaft.Server.Moves

namespace Mineshaft.Server

open Mineshaft.Core Mineshaft.Lib Mineshaft.Lib.Transition

/-- The kernel gives a new connection an address that no connection with an
unfinished task has. -/
def FreshAddr (v : View) : Label → Prop
  | .accept _ addr => ∀ c st, v.stage c = some (addr, st) → st = .finished
  | _ => True

def DistinctAddrs (h : List Event) : Prop := ∀ e ∈ h, FreshAddr e.pre.view e.label

theorem DistinctAddrs.tail {e : Event} {h : List Event} (hd : DistinctAddrs (e :: h)) :
    DistinctAddrs h :=
  fun e he => hd e (List.mem_cons_of_mem _ he)

/-- The clients map holds exactly the connections between their insertion and
their cleanup, under distinct addresses. -/
structure Wired (v : View) : Prop where
  client : ∀ c addr, v.stage c = some (addr, .inserted) → v.reg.clients.lookup addr = some ⟨c⟩
  live : ∀ addr c, v.reg.clients.lookup addr = some ⟨c⟩ → v.stage c = some (addr, .inserted)
  unique : ∀ c d addr st su, v.stage c = some (addr, st) → v.stage d = some (addr, su) →
    st ≠ .finished → su ≠ .finished → c = d

theorem regAfter_kept (reg : Registry) (addr : SocketAddr) (msg : ClientMessage) :
    (regAfter reg addr msg).clients = reg.clients ∧
      (regAfter reg addr msg).nextSessionId = reg.nextSessionId := by
  cases msg with
  | registerHost | ping | listHosts | connectRequest => exact ⟨rfl, rfl⟩
  | updateHost server => simp only [regAfter, Registry.updateHost]; split <;> exact ⟨rfl, rfl⟩
  | unregisterHost id =>
    simp only [regAfter, Registry.unregisterHost]
    split <;> exact ⟨rfl, rfl⟩
  | signal t c n d =>
    simp only [regAfter, Registry.routeSignal]
    split
    · split <;> exact ⟨rfl, rfl⟩
    · exact ⟨rfl, rfl⟩

theorem regAfter_clients (reg : Registry) (addr : SocketAddr) (msg : ClientMessage) :
    (regAfter reg addr msg).clients = reg.clients := (regAfter_kept reg addr msg).1

/-- A new connection has the address of one with an unfinished task only when
neither of the two is among the given connections. -/
def FreshFor (P : ConnId → Prop) (v : View) : Label → Prop
  | .accept c addr => ∀ d st, v.stage d = some (addr, st) → st ≠ .finished → ¬ P c ∧ ¬ P d
  | _ => True

/-- Each of the given connections is in the clients map between its insertion
and its cleanup, and shares its address with no unfinished connection. -/
structure WiredFor (P : ConnId → Prop) (v : View) : Prop where
  client : ∀ c addr, P c → v.stage c = some (addr, .inserted) →
    v.reg.clients.lookup addr = some ⟨c⟩
  unique : ∀ c d addr st su, P c → v.stage c = some (addr, st) → v.stage d = some (addr, su) →
    st ≠ .finished → su ≠ .finished → c = d

section WiredFor

variable {P : ConnId → Prop} {v : View}

theorem WiredFor.init (P : ConnId → Prop) : WiredFor P State.init.view where
  client := by intro c addr _ h; cases h
  unique := by intro c d addr st su _ h; cases h

theorem WiredFor.congr (h : WiredFor P v) {reg : Registry} (hc : reg.clients = v.reg.clients) :
    WiredFor P ⟨reg, v.stage⟩ where
  client := by rw [hc]; exact h.client
  unique := h.unique

theorem WiredFor.accept (h : WiredFor P v) {c : ConnId} {addr : SocketAddr}
    (hf : FreshFor P v (.accept c addr)) :
    WiredFor P ⟨v.reg, Function.update v.stage c (some (addr, .spawned))⟩ where
  client := by
    intro d a hP hd
    by_cases hc : d = c
    · subst hc; simp at hd
    · exact h.client d a hP (by simpa [hc] using hd)
  unique := by
    intro d e a st su hP hd he hst hsu
    dsimp only at hd he
    by_cases hdc : d = c <;> by_cases hec : e = c
    · rw [hdc, hec]
    · subst hdc
      simp only [Function.update_self, Option.some.injEq, Prod.mk.injEq] at hd
      rw [Function.update_of_ne hec, ← hd.1] at he
      exact absurd hP (hf e su he hsu).1
    · subst hec
      simp only [Function.update_self, Option.some.injEq, Prod.mk.injEq] at he
      rw [Function.update_of_ne hdc, ← he.1] at hd
      exact absurd hP (hf d st hd hst).2
    · rw [Function.update_of_ne hdc] at hd
      rw [Function.update_of_ne hec] at he
      exact h.unique d e a st su hP hd he hst hsu

theorem WiredFor.unique_update (h : WiredFor P v) {c : ConnId} {addr : SocketAddr}
    {su : Stage} (st : Stage) (hc : v.stage c = some (addr, su)) (hsu : su ≠ .finished) :
    ∀ d e a st₁ st₂, P d → Function.update v.stage c (some (addr, st)) d = some (a, st₁) →
      Function.update v.stage c (some (addr, st)) e = some (a, st₂) →
      st₁ ≠ .finished → st₂ ≠ .finished → d = e := by
  intro d e a st₁ st₂ hP hd he h₁ h₂
  by_cases hdc : d = c <;> by_cases hec : e = c
  · rw [hdc, hec]
  · subst hdc
    simp only [Function.update_self, Option.some.injEq, Prod.mk.injEq] at hd
    rw [Function.update_of_ne hec, ← hd.1] at he
    exact h.unique d e addr su st₂ hP hc he hsu h₂
  · subst hec
    simp only [Function.update_self, Option.some.injEq, Prod.mk.injEq] at he
    rw [Function.update_of_ne hdc, ← he.1] at hd
    exact h.unique d e addr st₁ su hP hd hc h₁ hsu
  · rw [Function.update_of_ne hdc] at hd
    rw [Function.update_of_ne hec] at he
    exact h.unique d e a st₁ st₂ hP hd he h₁ h₂

theorem WiredFor.addr_ne (h : WiredFor P v) {c d : ConnId} {a b : SocketAddr} {st su : Stage}
    (hP : P c) (hc : v.stage c = some (a, st)) (hd : v.stage d = some (b, su))
    (hst : st ≠ .finished) (hsu : su ≠ .finished) (hne : c ≠ d) : a ≠ b := by
  rintro rfl
  exact hne (h.unique c d a st su hP hc hd hst hsu)

theorem WiredFor.insert (h : WiredFor P v) {c : ConnId} {addr : SocketAddr}
    (hc : v.stage c = some (addr, .spawned)) :
    WiredFor P ⟨v.reg.insertClient addr ⟨c⟩,
      Function.update v.stage c (some (addr, .inserted))⟩ where
  client := by
    intro d a hP hd
    dsimp only at hd
    change (v.reg.clients.insert addr ⟨c⟩).lookup a = _
    rw [HashMap.lookup_insert_eq]
    by_cases hdc : d = c
    · subst hdc
      simp only [Function.update_self, Option.some.injEq, Prod.mk.injEq, and_true] at hd
      simp [hd]
    · rw [Function.update_of_ne hdc] at hd
      have ha := h.addr_ne hP hd hc (by decide) (by decide) hdc
      rw [if_neg ha]
      exact h.client d a hP hd
  unique := h.unique_update .inserted hc (by decide)

theorem WiredFor.cleanup (h : WiredFor P v) {c : ConnId} {addr : SocketAddr}
    (hc : v.stage c = some (addr, .inserted)) :
    WiredFor P ⟨v.reg.cleanup addr, Function.update v.stage c (some (addr, .finished))⟩ where
  client := by
    intro d a hP hd
    dsimp only at hd ⊢
    by_cases hdc : d = c
    · subst hdc; simp at hd
    · rw [Function.update_of_ne hdc] at hd
      have ha := h.addr_ne hP hd hc (by decide) (by decide) hdc
      rw [Registry.cleanup_clients, if_neg ha]
      exact h.client d a hP hd
  unique := h.unique_update .finished hc (by decide)

theorem WiredFor.step {v' : View} {l : Label} (h : WiredFor P v) (hf : FreshFor P v l)
    (he : Effect v l v') : WiredFor P v' := by
  cases he with
  | accept hn => exact h.accept hf
  | insert hc => exact h.insert hc
  | handle hc => exact h.congr (regAfter_clients _ _ _)
  | openSession hc => exact h.congr rfl
  | cleanup hc => exact h.cleanup hc
  | read | listHosts | sendTo | leave | write | closeRx => exact h

end WiredFor

theorem run_wiredFor {P : ConnId → Prop} {h : List Event} {s : State} (hr : Run h s)
    (hf : ∀ e ∈ h, FreshFor P e.pre.view e.label) : WiredFor P s.view :=
  hr.invariant (fun e : Event => FreshFor P e.pre.view e.label)
    (fun s : State => WiredFor P s.view) (WiredFor.init P)
    (fun _ _ _ hf hi hs => hi.step hf (step_effect hs)) hf

theorem FreshAddr.freshFor {v : View} {l : Label} (h : FreshAddr v l) (P : ConnId → Prop) :
    FreshFor P v l := by
  cases l with
  | accept c addr => exact fun d st hd hst => absurd (h d st hd) hst
  | _ => trivial

theorem Wired.init : Wired State.init.view where
  client := by intro c addr h; cases h
  live := by intro addr c h; cases h
  unique := by intro c d addr st su h; cases h

theorem Wired.wiredFor {v : View} (h : Wired v) : WiredFor (fun _ => True) v where
  client := fun c addr _ => h.client c addr
  unique := fun c d addr st su _ => h.unique c d addr st su

theorem Wired.addr_ne {v : View} (h : Wired v) {c d : ConnId} {a b : SocketAddr} {st su : Stage}
    (hc : v.stage c = some (a, st)) (hd : v.stage d = some (b, su)) (hst : st ≠ .finished)
    (hsu : su ≠ .finished) (hne : c ≠ d) : a ≠ b :=
  h.wiredFor.addr_ne trivial hc hd hst hsu hne

theorem live_step {v v' : View} {l : Label}
    (h : ∀ addr c, v.reg.clients.lookup addr = some ⟨c⟩ → v.stage c = some (addr, .inserted))
    (he : Effect v l v') :
    ∀ addr c, v'.reg.clients.lookup addr = some ⟨c⟩ → v'.stage c = some (addr, .inserted) := by
  intro a d hl
  cases he with
  | @accept c addr hn =>
    have hd := h a d hl
    have hdc : d ≠ c := by rintro rfl; simp [hn] at hd
    simpa [hdc] using hd
  | @insert c addr hc =>
    change (v.reg.clients.insert addr ⟨c⟩).lookup a = _ at hl
    rw [HashMap.lookup_insert_eq] at hl
    split at hl
    next ha =>
      subst ha
      obtain rfl : c = d := by simpa using hl
      simp
    next ha =>
      have hd := h a d hl
      have hdc : d ≠ c := by rintro rfl; simp [hc] at hd
      simpa [hdc] using hd
  | @cleanup c addr hc =>
    rw [Registry.cleanup_clients] at hl
    split at hl
    · cases hl
    next ha =>
      have hd := h a d hl
      have hdc : d ≠ c := by
        rintro rfl
        rw [hc] at hd
        cases hd
        exact ha rfl
      simpa [hdc] using hd
  | handle hc =>
    rw [regAfter_clients] at hl
    exact h a d hl
  | openSession | read | listHosts | sendTo | leave | write | closeRx => exact h a d hl

theorem Wired.step {v v' : View} {l : Label} (h : Wired v) (hf : FreshAddr v l)
    (he : Effect v l v') : Wired v' :=
  have hw := h.wiredFor.step (hf.freshFor _) he
  ⟨fun c addr => hw.client c addr trivial, live_step h.live he,
    fun c d addr st su => hw.unique c d addr st su trivial⟩

theorem run_wired {h : List Event} {s : State} (hr : Run h s) (hd : DistinctAddrs h) :
    Wired s.view :=
  hr.invariant (fun e : Event => FreshAddr e.pre.view e.label) (fun s : State => Wired s.view) Wired.init
    (fun _ _ _ hf hi hs => hi.step hf (step_effect hs)) hd

def Label.accepted : Label → Option SocketAddr
  | .accept _ addr => some addr
  | _ => none

theorem accepted_of_stage {h : List Event} {s : State} (hr : Run h s) {c : ConnId}
    {addr : SocketAddr} {st : Stage} (hs : s.view.stage c = some (addr, st)) :
    addr ∈ h.filterMap (fun e => e.label.accepted) := by
  induction hr generalizing c addr st with
  | nil => cases hs
  | @cons h s s' l hr hstep ih =>
    rw [List.mem_filterMap]
    have hold : ∀ {d st'}, s.view.stage d = some (addr, st') →
        ∃ e ∈ (⟨s, l⟩ :: h : List Event), e.label.accepted = some addr := by
      intro d st' hd
      obtain ⟨e, he, ha⟩ := List.mem_filterMap.mp (ih hd)
      exact ⟨e, List.mem_cons_of_mem _ he, ha⟩
    have hmove : ∀ {d a st' st''}, s.view.stage d = some (a, st') →
        Function.update s.view.stage d (some (a, st'')) c = some (addr, st) →
        ∃ e ∈ (⟨s, l⟩ :: h : List Event), e.label.accepted = some addr := by
      intro d a st' st'' hd hu
      by_cases hc : c = d
      · subst hc
        simp only [Function.update_self, Option.some.injEq, Prod.mk.injEq] at hu
        exact hold (hu.1 ▸ hd)
      · exact hold (by simpa [hc] using hu)
    have he := step_effect hstep
    generalize hv : s.view = v at he hmove hold
    generalize hv' : s'.view = v' at he hs
    cases he with
    | @accept c' addr' hn =>
      by_cases hc : c = c'
      · subst hc
        simp only [Function.update_self, Option.some.injEq, Prod.mk.injEq] at hs
        exact ⟨_, List.mem_cons_self, congrArg some hs.1⟩
      · exact hold (by simpa [hc] using hs)
    | insert hc => exact hmove hc hs
    | cleanup hc => exact hmove hc hs
    | handle | openSession | read | listHosts | sendTo | leave | write | closeRx => exact hold hs

/-- A run that never accepts an address twice gives distinct addresses to
simultaneous connections. -/
theorem distinctAddrs_of_nodup {h : List Event} {s : State} (hr : Run h s)
    (hn : (h.filterMap (fun e => e.label.accepted)).Nodup) : DistinctAddrs h := by
  induction hr with
  | nil => intro e he; cases he
  | @cons h s s' l hr hs ih =>
    have hsub : (h.filterMap (fun e => e.label.accepted)).Nodup := by
      refine hn.sublist ?_
      exact (List.sublist_cons_self _ _).filterMap _
    intro e he
    obtain rfl | he := List.mem_cons.mp he
    · cases l with
      | accept c addr =>
        intro d st hd
        have hm := accepted_of_stage hr hd
        simp only [List.filterMap_cons, Label.accepted, List.nodup_cons] at hn
        exact absurd hm hn.1
      | _ => trivial
    · exact ih hsub e he

theorem replay_distinctAddrs (ls : List Label) (hn : (ls.filterMap Label.accepted).Nodup) :
    DistinctAddrs (replay machine ls).1 := by
  refine distinctAddrs_of_nodup (replay_run ls) ?_
  have hl : ((replay machine ls).1.map (fun e => e.label)).Sublist ls.reverse := replay_labels ls
  have hs := hl.filterMap Label.accepted
  rw [List.filterMap_map, List.filterMap_reverse] at hs
  exact (List.nodup_reverse.mpr hn).sublist hs

def Label.opened : Label → Option ConnId
  | .accept c _ => some c
  | _ => none

theorem opened_of_stage {h : List Event} {s : State} (hr : Run h s) {c : ConnId}
    {p : SocketAddr × Stage} (hs : s.view.stage c = some p) :
    c ∈ h.filterMap (fun e => e.label.opened) := by
  induction hr generalizing p with
  | nil => cases hs
  | @cons h s s' l hr hstep ih =>
    have hold : ∀ {p}, s.view.stage c = some p →
        c ∈ (⟨s, l⟩ :: h).filterMap (fun e => e.label.opened) := by
      intro p hp
      exact ((List.sublist_cons_self _ _).filterMap _).subset (ih hp)
    have he := step_effect hstep
    generalize s'.view = v' at he hs
    cases he with
    | @accept d addr hn =>
      by_cases hc : c = d
      · simp [Label.opened, hc]
      · exact hold (by simpa [hc] using hs)
    | @insert d addr hd | @cleanup d addr hd =>
      by_cases hc : c = d
      · exact hold (hc ▸ hd)
      · exact hold (by simpa [hc] using hs)
    | handle | openSession | read | listHosts | sendTo | leave | write | closeRx => exact hold hs

def Apart (e : Event) (d : ConnId) : Prop :=
  ∀ addr ∈ e.label.accepted, ∀ p ∈ e.pre.view.stage d, p.1 = addr → p.2 = .finished

instance (e : Event) (d : ConnId) : Decidable (Apart e d) :=
  inferInstanceAs (Decidable (∀ addr ∈ e.label.accepted, ∀ p ∈ e.pre.view.stage d,
    p.1 = addr → p.2 = .finished))

theorem distinctAddrs_of_apart {h : List Event} {s : State} (hr : Run h s)
    (ha : ∀ e ∈ h, ∀ d ∈ h.filterMap (fun e => e.label.opened), Apart e d) : DistinctAddrs h := by
  intro e he
  obtain ⟨early, hsub, hrun⟩ := hr.of_mem he
  cases hl : e.label with
  | accept c addr =>
    intro d st hd
    have hm := List.filterMap_subset _ hsub (opened_of_stage hrun hd)
    exact ha e he d hm addr (by rw [hl]; rfl) (addr, st) hd rfl
  | _ => trivial

end Mineshaft.Server
