import Mathlib.Data.Finset.Card
import Mineshaft.Core.Relay

namespace Mineshaft.Core.Relay

open Mineshaft.Lib

/-- The registry after a series of `register_host` calls, newest first, each
with some iteration order of the map that it met, and the ids that are present,
newest entered first. -/
inductive Reaches (k : Nat) : List AdvertisedServer → Hosts → List UInt64 → Prop
  | nil : Reaches k [] ∅ []
  | cons {servers : List AdvertisedServer} {hosts : Hosts} {entered : List UInt64}
      (server : AdvertisedServer) (order : List UInt64) :
      Reaches k servers hosts entered → order.Perm hosts.keys →
      Reaches k (server :: servers) (registerHost k hosts order server)
        (if server.senderId ∈ hosts then entered
         else server.senderId ::
          entered.filter (fun id => decide (id ∈ registerHost k hosts order server)))

/-- The bounded queue: an id that is not in it enters, and the oldest one
leaves when there are too many. -/
def fifo (k : Nat) : List AdvertisedServer → List UInt64
  | [] => []
  | server :: servers =>
    if server.senderId ∈ fifo k servers then fifo k servers
    else (server.senderId :: fifo k servers).take k

/-- At every call of the series, whatever the iteration orders were: a new id
at a full registry removes the id that entered first, and the registry holds
what the queue holds. -/
structure EvictsOldest (k : Nat) (servers : List AdvertisedServer) : Prop where
  removed : ∀ server early, server :: early <:+ servers → ∀ hosts entered,
    Reaches k early hosts entered → server.senderId ∉ hosts → k ≤ hosts.len →
    ∀ order : List UInt64, order.Perm hosts.keys → ∀ id ∈ hosts,
      id ∉ registerHost k hosts order server ↔ entered.getLast? = some id
  refines : ∀ early, early <:+ servers → ∀ hosts entered, Reaches k early hosts entered →
    ∀ id, id ∈ hosts ↔ id ∈ fifo k early

def ids (servers : List AdvertisedServer) : Finset UInt64 :=
  (servers.map (fun server => server.senderId)).toFinset

section Entered

variable {k : Nat} {servers : List AdvertisedServer} {hosts : Hosts} {entered order : List UInt64}
  {server : AdvertisedServer}

theorem mem_registerHost_full (hnew : server.senderId ∉ hosts) (hlen : k ≤ hosts.len)
    {oldest : UInt64} {rest : List UInt64} {id : UInt64} (hid : id ∈ hosts) :
    id ∈ registerHost k hosts (oldest :: rest) server ↔ id ≠ oldest := by
  have hne : id ≠ server.senderId := by
    rintro rfl
    exact hnew hid
  rw [registerHost_full hnew hlen, AList.mem_insert, AList.mem_erase]
  simp [hne, hid]

theorem mem_registerHost_room (hroom : server.senderId ∈ hosts ∨ hosts.len < k) {id : UInt64} :
    id ∈ registerHost k hosts order server ↔ id = server.senderId ∨ id ∈ hosts := by
  rw [registerHost_room hroom, AList.mem_insert]

theorem own_mem_registerHost (hp : order.Perm hosts.keys) :
    server.senderId ∈ registerHost k hosts order server := by
  have hreg : Registered k hosts server _ := registerHost_registered hp
  exact AList.lookup_isSome.mp (by simp [hreg.own])

theorem mem_of_mem_registerHost (hp : order.Perm hosts.keys) {id : UInt64}
    (hid : id ∈ registerHost k hosts order server) : id = server.senderId ∨ id ∈ hosts := by
  by_cases hne : id = server.senderId
  · exact Or.inl hne
  · obtain ⟨found, hf⟩ := Option.isSome_iff_exists.mp (AList.lookup_isSome.mpr hid)
    have hreg : Registered k hosts server _ := registerHost_registered hp
    have hold := hreg.others id found hne hf
    exact Or.inr (AList.lookup_isSome.mp (by simp [hold]))

theorem Reaches.nodup (hr : Reaches k servers hosts entered) :
    entered.Nodup ∧ ∀ id, id ∈ entered ↔ id ∈ hosts := by
  induction hr with
  | nil => simp
  | @cons servers hosts entered server order _ hp ih =>
    obtain ⟨hnd, hmem⟩ := ih
    split
    next hold =>
      refine ⟨hnd, fun id => ?_⟩
      rw [hmem, mem_registerHost_room (Or.inl hold)]
      constructor
      · exact Or.inr
      · rintro (rfl | hid)
        · exact hold
        · exact hid
    next hnew =>
      constructor
      · refine List.nodup_cons.mpr ⟨?_, hnd.filter _⟩
        intro hin
        exact hnew ((hmem _).mp (List.mem_of_mem_filter hin))
      · intro id
        rw [List.mem_cons, List.mem_filter, hmem, decide_eq_true_iff]
        constructor
        · rintro (rfl | ⟨-, hid⟩)
          · exact own_mem_registerHost hp
          · exact hid
        · intro hid
          obtain h | h := mem_of_mem_registerHost hp hid
          · exact Or.inl h
          · exact Or.inr ⟨h, hid⟩

theorem Reaches.perm (hr : Reaches k servers hosts entered) : entered.Perm hosts.keys :=
  (List.perm_ext_iff_of_nodup hr.nodup.1 hosts.keys_nodup).mpr hr.nodup.2

theorem Reaches.length (hr : Reaches k servers hosts entered) : entered.length = hosts.len :=
  hr.perm.length_eq

theorem Reaches.bounded (hr : Reaches k servers hosts entered) : Bounded k hosts := by
  induction hr with
  | nil =>
    constructor
    · exact Nat.zero_le _
    · intro id server hl
      simp at hl
  | cons server order _ hp ih => exact registerHost_bounded hp ih

theorem exists_reaches (k : Nat) (servers : List AdvertisedServer) :
    ∃ hosts entered, Reaches k servers hosts entered := by
  induction servers with
  | nil => exact ⟨∅, [], Reaches.nil⟩
  | cons server servers ih =>
    obtain ⟨hosts, entered, hr⟩ := ih
    exact ⟨_, _, Reaches.cons server hosts.keys hr (List.Perm.refl _)⟩

end Entered

theorem filter_ne_getLast {last : UInt64} {l : List UInt64} (hnd : l.Nodup)
    (hlast : l.getLast? = some last) : l.filter (fun id => decide (id ≠ last)) = l.dropLast := by
  obtain ⟨init, rfl⟩ := List.getLast?_eq_some_iff.mp hlast
  have hkeep : ∀ id ∈ init, decide (id ≠ last) = true := by
    intro id hid
    simp only [ne_eq, decide_eq_true_eq]
    rintro rfl
    exact (List.nodup_append.mp hnd).2.2 id hid id List.mem_cons_self rfl
  rw [List.filter_append, List.filter_eq_self.mpr hkeep]
  simp

section Series

variable {k : Nat} {servers : List AdvertisedServer} {hosts : Hosts} {entered : List UInt64}

theorem Reaches.kept_room (hr : Reaches k servers hosts entered) (hlt : hosts.len < k)
    {server : AdvertisedServer} {order : List UInt64} :
    entered.filter (fun id => decide (id ∈ registerHost k hosts order server)) = entered := by
  rw [List.filter_eq_self]
  intro id hid
  rw [decide_eq_true_iff, mem_registerHost_room (Or.inr hlt)]
  exact Or.inr ((hr.nodup.2 id).mp hid)

theorem Reaches.kept_full (hr : Reaches k servers hosts entered) (hk : 0 < k)
    (hfull : k ≤ hosts.len) {server : AdvertisedServer} {order : List UInt64}
    (hrem : ∀ id ∈ hosts,
      id ∉ registerHost k hosts order server ↔ entered.getLast? = some id) :
    entered.filter (fun id => decide (id ∈ registerHost k hosts order server)) =
      entered.take (k - 1) := by
  have hlen : entered.length = k := by
    have hl := hr.length
    have hb := hr.bounded.len
    omega
  have hne : entered ≠ [] := by
    rintro rfl
    simp at hlen
    omega
  obtain ⟨last, hlast⟩ : ∃ last, entered.getLast? = some last :=
    ⟨entered.getLast hne, List.getLast?_eq_some_getLast hne⟩
  have hiff : ∀ id ∈ entered, decide (id ∈ registerHost k hosts order server) =
      decide (id ≠ last) := by
    intro id hid
    have h := hrem id ((hr.nodup.2 id).mp hid)
    rw [hlast, Option.some.injEq] at h
    rw [decide_eq_decide]
    constructor
    · intro hm he
      exact h.mpr he.symm hm
    · intro hn
      by_contra hm
      exact hn (h.mp hm).symm
  rw [List.filter_congr hiff, filter_ne_getLast hr.nodup.1 hlast, List.dropLast_eq_take, hlen]

/-- While every eviction removes the oldest id, what is present is the queue. -/
theorem entered_eq_fifo (hk : 0 < k)
    (hrem : ∀ server early, server :: early <:+ servers → ∀ hosts entered,
      Reaches k early hosts entered → server.senderId ∉ hosts → k ≤ hosts.len →
      ∀ order : List UInt64, order.Perm hosts.keys → ∀ id ∈ hosts,
        id ∉ registerHost k hosts order server ↔ entered.getLast? = some id)
    {early : List AdvertisedServer} (hsuf : early <:+ servers)
    (hr : Reaches k early hosts entered) : entered = fifo k early := by
  induction hr with
  | nil => rfl
  | @cons early hosts entered server order hr hp ih =>
    have heq := ih ((List.suffix_cons server early).trans hsuf)
    obtain ⟨-, hmem⟩ := hr.nodup
    obtain ⟨m, rfl⟩ : ∃ m, k = m + 1 := ⟨k - 1, by omega⟩
    rw [fifo, ← heq]
    by_cases hin : server.senderId ∈ hosts
    · rw [if_pos hin, if_pos ((hmem _).mpr hin)]
    · rw [if_neg hin, if_neg (fun h => hin ((hmem _).mp h)), List.take_succ_cons]
      obtain hlt | hfull := Nat.lt_or_ge hosts.len (m + 1)
      · have hl := hr.length
        rw [hr.kept_room hlt, List.take_of_length_le (by omega)]
      · rw [hr.kept_full hk hfull (hrem server early hsuf hosts entered hr hin hfull order hp)]
        rfl

theorem ids_cons {server : AdvertisedServer} :
    ids (server :: servers) = insert server.senderId (ids servers) := by
  simp [ids]

theorem len_eq_card (hr : Reaches k servers hosts entered)
    (hkeys : ∀ id, id ∈ hosts ↔ id ∈ ids servers) : hosts.len = (ids servers).card := by
  have hset : ids servers = entered.toFinset := by
    ext id
    rw [List.mem_toFinset, hr.nodup.2, hkeys]
  rw [hset, List.toFinset_card_of_nodup hr.nodup.1, hr.length]

theorem few_ids (hr : Reaches k servers hosts entered) (hfew : (ids servers).card ≤ k) :
    ∀ id, id ∈ hosts ↔ id ∈ ids servers := by
  induction hr with
  | nil => simp [ids]
  | @cons servers hosts entered server order hr hp ih =>
    have hsub : (ids servers).card ≤ (ids (server :: servers)).card := by
      rw [ids_cons]
      exact Finset.card_le_card (Finset.subset_insert _ _)
    have hkeys := ih (hsub.trans hfew)
    have hlen := len_eq_card hr hkeys
    have hroom : server.senderId ∈ hosts ∨ hosts.len < k := by
      by_cases hin : server.senderId ∈ hosts
      · exact Or.inl hin
      · rw [ids_cons, Finset.card_insert_of_notMem (fun h => hin ((hkeys _).mpr h))] at hfew
        exact Or.inr (by omega)
    intro id
    rw [mem_registerHost_room hroom, ids_cons, Finset.mem_insert, hkeys]

theorem exists_crowded (hmany : k < (ids servers).card) :
    ∃ server early, server :: early <:+ servers ∧ (ids early).card = k ∧
      server.senderId ∉ ids early := by
  induction servers with
  | nil => simp [ids] at hmany
  | cons server servers ih =>
    obtain hlt | hge := Nat.lt_or_ge k (ids servers).card
    · obtain ⟨first, early, hsuf, hcard, hnew⟩ := ih hlt
      exact ⟨first, early, hsuf.trans (List.suffix_cons _ _), hcard, hnew⟩
    · have hnew : server.senderId ∉ ids servers := by
        intro hin
        rw [ids_cons, Finset.insert_eq_of_mem hin] at hmany
        omega
      rw [ids_cons, Finset.card_insert_of_notMem hnew] at hmany
      exact ⟨server, servers, List.suffix_refl _, by omega, hnew⟩

theorem exists_order (hr : Reaches k servers hosts entered) (htwo : 2 ≤ hosts.len) :
    ∃ younger rest, (younger :: rest).Perm hosts.keys ∧ entered.getLast? ≠ some younger := by
  have hl := hr.length
  match entered, hr.nodup.1, hr.perm with
  | [], _, _ => simp at hl; omega
  | [_], _, _ => simp at hl; omega
  | younger :: next :: rest, hnd, hperm =>
    refine ⟨younger, next :: rest, hperm, ?_⟩
    rw [List.getLast?_cons_cons]
    intro hlast
    exact (List.nodup_cons.mp hnd).1 (List.mem_of_getLast? hlast)

theorem not_evictsOldest (htwo : 2 ≤ k) (hmany : k < (ids servers).card) :
    ¬ EvictsOldest k servers := by
  intro hold
  obtain ⟨server, early, hsuf, hcard, hnew⟩ := exists_crowded hmany
  obtain ⟨hosts, entered, hr⟩ := exists_reaches k early
  have hkeys := few_ids hr hcard.le
  have hlen := len_eq_card hr hkeys
  obtain ⟨younger, rest, hp, hlast⟩ := exists_order hr (by omega)
  have hin : younger ∈ hosts := hp.mem_iff.mp List.mem_cons_self
  have hfresh : server.senderId ∉ hosts := fun h => hnew ((hkeys _).mp h)
  have hgone : younger ∉ registerHost k hosts (younger :: rest) server := by
    rw [mem_registerHost_full hfresh (by omega) hin]
    simp
  have hrem := hold.removed server early hsuf hosts entered hr hfresh (by omega) _ hp younger hin
  exact hlast (hrem.mp hgone)

theorem removed_single (hr : Reaches 1 servers hosts entered) {server : AdvertisedServer}
    (hnew : server.senderId ∉ hosts) (hfull : 1 ≤ hosts.len) {order : List UInt64}
    (hp : order.Perm hosts.keys) {id : UInt64} (hid : id ∈ hosts) :
    id ∉ registerHost 1 hosts order server ↔ entered.getLast? = some id := by
  have hb := hr.bounded.len
  have hlen : hosts.len = 1 := by omega
  obtain ⟨only, honly⟩ := List.length_eq_one_iff.mp (hp.length_eq.trans hlen)
  obtain ⟨last, hlast⟩ := List.length_eq_one_iff.mp (hr.length.trans hlen)
  subst honly hlast
  have hsame : only = last := by
    have h := hp.trans hr.perm.symm
    simpa using h
  rw [mem_registerHost_full hnew hfull hid, hsame]
  simp [eq_comm]

theorem removed_of (hcond : k = 1 ∨ (ids servers).card ≤ k) (server : AdvertisedServer)
    (early : List AdvertisedServer) (hsuf : server :: early <:+ servers) (hosts : Hosts)
    (entered : List UInt64) (hr : Reaches k early hosts entered)
    (hnew : server.senderId ∉ hosts) (hfull : k ≤ hosts.len) (order : List UInt64)
    (hp : order.Perm hosts.keys) (id : UInt64) (hid : id ∈ hosts) :
    id ∉ registerHost k hosts order server ↔ entered.getLast? = some id := by
  obtain rfl | hfew := hcond
  · exact removed_single hr hnew hfull hp hid
  · -- the new id is one more than those present, so the registry is not full
    have hsub : (ids (server :: early)).card ≤ (ids servers).card := by
      apply Finset.card_le_card
      intro a ha
      simp only [ids, List.mem_toFinset] at ha ⊢
      exact List.map_subset _ hsuf.subset ha
    have hmore : (ids early).card ≤ (ids (server :: early)).card := by
      rw [ids_cons]
      exact Finset.card_le_card (Finset.subset_insert _ _)
    have hkeys := few_ids hr (by omega)
    have hlen := len_eq_card hr hkeys
    rw [ids_cons, Finset.card_insert_of_notMem (fun h => hnew ((hkeys _).mpr h))] at hsub
    omega

end Series

/-- The map has no ages. The eviction is that of a queue for every iteration
order exactly when there is no choice or no eviction. -/
theorem evictsOldest_iff {k : Nat} (hk : 0 < k) (servers : List AdvertisedServer) :
    EvictsOldest k servers ↔ k = 1 ∨ (ids servers).card ≤ k := by
  constructor
  · intro hold
    by_contra hcond
    exact not_evictsOldest (by omega) (by omega) hold
  · intro hcond
    refine ⟨removed_of hcond, ?_⟩
    intro early hsuf hosts entered hr id
    rw [← entered_eq_fifo hk (removed_of hcond) hsuf hr, hr.nodup.2]

/-- With room for one host there is no choice: 8 takes the place of 7, under every
iteration order. -/
theorem evictsOldest_one :
    EvictsOldest 1 [⟨8, default⟩, ⟨7, default⟩] ∧
      ∃ hosts, Reaches 1 [⟨7, default⟩] hosts [7] ∧ 7 ∈ hosts ∧ 1 ≤ hosts.len ∧
        ∀ order : List UInt64, order.Perm hosts.keys → 7 ∉ registerHost 1 hosts order ⟨8, default⟩ := by
  have hold := (evictsOldest_iff (by decide) [⟨8, default⟩, ⟨7, default⟩]).mpr (Or.inl rfl)
  have hr : Reaches 1 [⟨7, default⟩] (registerHost 1 ∅ [] ⟨7, default⟩) [7] :=
    Reaches.cons ⟨7, default⟩ [] Reaches.nil (by decide)
  refine ⟨hold, _, hr, by decide, by decide, ?_⟩
  intro order hp
  exact (hold.removed ⟨8, default⟩ _ List.suffix_rfl _ _ hr (by decide) (by decide) order hp 7
    (by decide)).mpr rfl

/-- Two hosts in a full registry: the id 7 entered first, and an iteration that
begins with 8 loses the id 8 to the third host. -/
theorem evictsOldest_three :
    ¬ EvictsOldest 2 [⟨9, default⟩, ⟨8, default⟩, ⟨7, default⟩] ∧
      ∃ hosts, Reaches 2 [⟨8, default⟩, ⟨7, default⟩] hosts [8, 7] ∧
        [8, 7].Perm hosts.keys ∧ 8 ∉ registerHost 2 hosts [8, 7] ⟨9, default⟩ ∧
        7 ∈ registerHost 2 hosts [8, 7] ⟨9, default⟩ := by
  refine ⟨not_evictsOldest (by decide) (by decide), _,
    Reaches.cons ⟨8, default⟩ [7] (Reaches.cons ⟨7, default⟩ [] Reaches.nil ?_) ?_, ?_⟩
  all_goals decide

end Mineshaft.Core.Relay
