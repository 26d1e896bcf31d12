import Mineshaft.Core.Discovery

namespace Mineshaft.Core

open Mineshaft.Lib

inductive Call
  | advertise (senderId : UInt64) (data : ServerAdvertisement)
  | updateHost (senderId : UInt64) (data : ServerAdvertisement)
  | unadvertise (senderId : UInt64)
  | replaceAll (entries : List AdvertisedServer)

namespace Advertised

section Marshaling

variable (build : UInt64 → ServerAdvertisement → Option (List UInt8))

def call (reg : Advertised) : Call → Advertised
  | .advertise senderId data => reg.advertise build senderId data
  | .updateHost senderId data => reg.updateHost build senderId data
  | .unadvertise senderId => reg.unadvertise senderId
  | .replaceAll entries => reg.replaceAll build entries

def Reachable (reg : Advertised) : Prop :=
  ∃ calls : List Call, reg = calls.foldl (call build) ∅

/-- Every cached packet is the one that its advertisement marshals to. -/
def Coherent (reg : Advertised) : Prop :=
  ∀ id entry, reg.lookup id = some entry → build id entry.data = some entry.packet

def rendered (entry : AdvertisedServer) : Option CachedAdvertisement :=
  (build entry.senderId entry.data).map (fun packet => ⟨entry.data, packet⟩)

def refreshed (entry : AdvertisedServer) (place : Option CachedAdvertisement) :
    Option CachedAdvertisement :=
  if place.map (fun existing => existing.data) = some entry.data then place
  else (rendered build entry).or place

/-- `replace_all` without the skip: every entry is marshaled again. -/
def remarshalAll (reg : Advertised) (entries : List AdvertisedServer) : Advertised :=
  entries.foldl (fun reg entry => reg.advertise build entry.senderId entry.data)
    (reg.retain (fun senderId _ => entries.any (fun e => decide (e.senderId = senderId))))

def entriesOf (entries : List AdvertisedServer) (id : UInt64) : List AdvertisedServer :=
  entries.filter (fun e => decide (e.senderId = id))

/-- What a list of entries calls for under an id: the last entry that marshals. -/
def replacement (entries : List AdvertisedServer) (id : UInt64) : Option CachedAdvertisement :=
  ((entriesOf entries id).filterMap (rendered build)).getLast?

end Marshaling

variable {build : UInt64 → ServerAdvertisement → Option (List UInt8)} {reg : Advertised}

theorem lookup_advertise (reg : Advertised) (entry : AdvertisedServer) (id : UInt64) :
    (reg.advertise build entry.senderId entry.data).lookup id =
      if id = entry.senderId then (rendered build entry).or (reg.lookup id) else reg.lookup id := by
  unfold advertise rendered
  cases build entry.senderId entry.data with
  | none => simp
  | some packet =>
    rw [HashMap.lookup_insert_eq]
    rfl

theorem lookup_refresh (reg : Advertised) (entry : AdvertisedServer) (id : UInt64) :
    (reg.refresh build entry).lookup id =
      if id = entry.senderId then refreshed build entry (reg.lookup id) else reg.lookup id := by
  by_cases hid : id = entry.senderId
  · subst hid
    rw [if_pos rfl]
    unfold refresh refreshed
    split
    · rfl
    · rw [lookup_advertise, if_pos rfl]
  · rw [if_neg hid]
    unfold refresh
    split
    · rfl
    · rw [lookup_advertise, if_neg hid]

theorem refreshed_eq {entry : AdvertisedServer} {place : Option CachedAdvertisement}
    (hp : ∀ existing, place = some existing →
      build entry.senderId existing.data = some existing.packet) :
    refreshed build entry place = (rendered build entry).or place := by
  unfold refreshed
  split
  next hd =>
    obtain ⟨existing, rfl, he⟩ := Option.map_eq_some_iff.mp hd
    rw [rendered, ← he, hp existing rfl]
    rfl
  · rfl

theorem rendered_coherent {entry : AdvertisedServer} {cached : CachedAdvertisement}
    (h : rendered build entry = some cached) :
    build entry.senderId cached.data = some cached.packet := by
  obtain ⟨packet, hb, rfl⟩ := Option.map_eq_some_iff.mp h
  exact hb

theorem advertise_coherent (hc : Coherent build reg) (id : UInt64) (data : ServerAdvertisement) :
    Coherent build (reg.advertise build id data) := by
  intro id' cached hl
  rw [lookup_advertise reg ⟨id, data⟩] at hl
  split at hl
  next hid =>
    subst hid
    obtain hr | ⟨-, hl⟩ := Option.or_eq_some_iff.mp hl
    · exact rendered_coherent hr
    · exact hc _ _ hl
  · exact hc _ _ hl

theorem refresh_coherent (hc : Coherent build reg) (entry : AdvertisedServer) :
    Coherent build (reg.refresh build entry) := by
  unfold refresh
  split
  · exact hc
  · exact advertise_coherent hc _ _

theorem retain_coherent (hc : Coherent build reg) (p : UInt64 → CachedAdvertisement → Bool) :
    Coherent build (reg.retain p) := by
  intro id cached hl
  exact hc _ _ ((HashMap.lookup_retain_eq_some _ _ _ _).mp hl).1

theorem foldl_refresh_coherent (entries : List AdvertisedServer) (hc : Coherent build reg) :
    Coherent build (entries.foldl (refresh build) reg) := by
  induction entries generalizing reg with
  | nil => exact hc
  | cons entry entries ih => exact ih (refresh_coherent hc entry)

/-- Every call keeps the cached packets up to date. -/
theorem call_coherent (hc : Coherent build reg) (c : Call) : Coherent build (reg.call build c) := by
  cases c with
  | advertise id data => exact advertise_coherent hc id data
  | updateHost id data => exact advertise_coherent hc id data
  | unadvertise id =>
    intro id' cached hl
    change (reg.erase id).lookup id' = some cached at hl
    rw [HashMap.lookup_erase_eq] at hl
    split at hl
    · cases hl
    · exact hc _ _ hl
  | replaceAll entries => exact foldl_refresh_coherent entries (retain_coherent hc _)

theorem empty_coherent : Coherent build ∅ := by
  intro id cached hl
  simp at hl

theorem Reachable.coherent (hr : Reachable build reg) : Coherent build reg := by
  obtain ⟨calls, rfl⟩ := hr
  suffices ∀ reg, Coherent build reg → Coherent build (calls.foldl (call build) reg) from
    this ∅ empty_coherent
  induction calls with
  | nil => exact fun _ hc => hc
  | cons c calls ih => exact fun reg hc => ih _ (call_coherent hc c)

theorem lookup_listed (reg : Advertised) (entries : List AdvertisedServer) (id : UInt64) :
    (reg.retain (fun senderId _ => entries.any (fun e => decide (e.senderId = senderId)))).lookup id =
      if entriesOf entries id = [] then none else reg.lookup id := by
  rw [HashMap.lookup_retain]
  by_cases ho : ∃ e ∈ entries, e.senderId = id
  · have hany : entries.any (fun e => decide (e.senderId = id)) = true := by simpa using ho
    rw [if_neg (by simpa [entriesOf] using ho), hany]
    cases reg.lookup id <;> rfl
  · have hany : entries.any (fun e => decide (e.senderId = id)) = false := by simpa using ho
    rw [if_pos (by simpa [entriesOf] using ho), hany]
    cases reg.lookup id <;> rfl

theorem foldl_refreshed (id : UInt64) (es : List AdvertisedServer)
    (hes : ∀ e ∈ es, e.senderId = id) (place : Option CachedAdvertisement)
    (hp : ∀ existing, place = some existing → build id existing.data = some existing.packet) :
    es.foldl (fun place e => refreshed build e place) place =
      es.foldl (fun place e => (rendered build e).or place) place := by
  induction es generalizing place with
  | nil => rfl
  | cons e es ih =>
    have he : e.senderId = id := hes e List.mem_cons_self
    rw [List.foldl_cons, List.foldl_cons, refreshed_eq (by rw [he]; exact hp)]
    refine ih (fun e h => hes e (List.mem_cons_of_mem _ h)) _ ?_
    intro existing hx
    obtain hr | ⟨-, hx⟩ := Option.or_eq_some_iff.mp hx
    · exact he ▸ rendered_coherent hr
    · exact hp existing hx

theorem lookup_replaceAll_fold (hc : Coherent build reg) (entries : List AdvertisedServer)
    (id : UInt64) :
    (reg.replaceAll build entries).lookup id =
      (entriesOf entries id).foldl (fun place e => (rendered build e).or place)
        (if entriesOf entries id = [] then none else reg.lookup id) := by
  unfold replaceAll
  rw [HashMap.lookup_foldl _ (fun e => e.senderId) (refreshed build) lookup_refresh]
  rw [lookup_listed]
  refine foldl_refreshed id _ (fun e he => by simpa using (List.mem_filter.mp he).2) _ ?_
  intro existing hx
  split at hx
  · cases hx
  · exact hc _ _ hx

theorem lookup_remarshalAll (reg : Advertised) (entries : List AdvertisedServer) (id : UInt64) :
    (reg.remarshalAll build entries).lookup id =
      (entriesOf entries id).foldl (fun place e => (rendered build e).or place)
        (if entriesOf entries id = [] then none else reg.lookup id) := by
  unfold remarshalAll
  rw [HashMap.lookup_foldl _ (fun e => e.senderId) (fun e place => (rendered build e).or place)
    lookup_advertise]
  rw [lookup_listed]
  rfl

/-- `replace_all` gives an id the last of its entries that marshals. Where the id
is listed and none of them does, it keeps what it had. -/
theorem lookup_replaceAll (hc : Coherent build reg) (entries : List AdvertisedServer)
    (id : UInt64) :
    (reg.replaceAll build entries).lookup id =
      (replacement build entries id).or
        (if entriesOf entries id = [] then none else reg.lookup id) := by
  rw [lookup_replaceAll_fold hc, HashMap.foldl_or]
  rfl

theorem replacement_eq_none_iff (entries : List AdvertisedServer) (id : UInt64) :
    replacement build entries id = none ↔
      ∀ e ∈ entries, e.senderId = id → build id e.data = none := by
  rw [replacement, List.getLast?_eq_none_iff, List.filterMap_eq_nil_iff]
  constructor
  · intro h e he hid
    have hr := h e (List.mem_filter.mpr ⟨he, by simpa using hid⟩)
    rwa [rendered, Option.map_eq_none_iff, hid] at hr
  · intro h e he
    obtain ⟨he, hid⟩ := List.mem_filter.mp he
    have hid : e.senderId = id := by simpa using hid
    rw [rendered, hid, h e he hid]
    rfl

theorem mem_advertised (reg : Advertised) (a : AdvertisedServer) :
    a ∈ reg.advertised ↔ (reg.lookup a.senderId).map (fun cached => cached.data) = some a.data := by
  rw [Option.map_eq_some_iff]
  constructor
  · intro h
    obtain ⟨⟨id, cached⟩, he, rfl⟩ := List.mem_map.mp h
    exact ⟨cached, (HashMap.lookup_eq_some_iff reg id cached).mpr he, rfl⟩
  · rintro ⟨cached, hl, hd⟩
    refine List.mem_map.mpr ⟨⟨a.senderId, cached⟩, (HashMap.lookup_eq_some_iff reg _ _).mp hl, ?_⟩
    rw [hd]

theorem advertised_replaceAll_nil (reg : Advertised) : (reg.replaceAll build []).advertised = [] := by
  simp [replaceAll, advertised, HashMap.retain]

theorem advertised_updateHost (hb : ∀ id data, (build id data).isSome) {id : UInt64}
    (h : reg.advertised = [] ∨ ∃ old, reg.advertised = [⟨id, old⟩]) (data : ServerAdvertisement) :
    (reg.updateHost build id data).advertised = [⟨id, data⟩] := by
  obtain ⟨packet, hp⟩ := Option.isSome_iff_exists.mp (hb id data)
  have he : reg.entries.kerase id = [] := by
    obtain h | ⟨old, h⟩ := h
    · rw [List.map_eq_nil_iff.mp h]
      rfl
    · obtain ⟨⟨id', cached⟩, he, ha⟩ := List.map_eq_singleton_iff.mp h
      cases ha
      rw [he]
      simp
  rw [updateHost, advertise, hp]
  simp [advertised, AList.entries_insert, he]

theorem replacement_total (hb : ∀ id data, (build id data).isSome) (entries : List AdvertisedServer)
    (id : UInt64) :
    replacement build entries id = (entriesOf entries id).getLast?.bind (rendered build) := by
  have hr : ∀ e, ∃ cached, rendered build e = some cached := by
    intro e
    rw [← Option.isSome_iff_exists, rendered, Option.isSome_map]
    exact hb e.senderId e.data
  choose f hf using hr
  have hfun : rendered build = fun e => some (f e) := funext hf
  rw [replacement, hfun, List.filterMap_eq_map', List.getLast?_map]
  cases (entriesOf entries id).getLast? <;> rfl

theorem mem_advertised_replaceAll (hb : ∀ id data, (build id data).isSome)
    (hc : Coherent build reg) (entries : List AdvertisedServer) (a : AdvertisedServer) :
    a ∈ (reg.replaceAll build entries).advertised ↔
      (entriesOf entries a.senderId).getLast? = some a := by
  have hl : (reg.replaceAll build entries).lookup a.senderId =
      (entriesOf entries a.senderId).getLast?.bind (rendered build) := by
    rw [lookup_replaceAll hc, replacement_total hb]
    cases he : (entriesOf entries a.senderId).getLast? with
    | none => rw [if_pos (List.getLast?_eq_none_iff.mp he)]; rfl
    | some e =>
      obtain ⟨packet, hp⟩ := Option.isSome_iff_exists.mp (hb e.senderId e.data)
      rw [Option.bind_some, rendered, hp]
      rfl
  rw [mem_advertised, hl]
  cases he : (entriesOf entries a.senderId).getLast? with
  | none => simp
  | some e =>
    have hid : e.senderId = a.senderId := by
      have hm := List.mem_of_getLast? he
      simpa using (List.mem_filter.mp hm).2
    obtain ⟨packet, hp⟩ := Option.isSome_iff_exists.mp (hb e.senderId e.data)
    rw [Option.bind_some, rendered, hp, Option.map_some, Option.map_some, Option.some_inj,
      Option.some_inj]
    constructor
    · intro hd
      obtain ⟨id, data⟩ := e
      cases hid
      cases hd
      rfl
    · rintro rfl
      rfl

variable (build reg) in
/-- Every listed id that is advertised before has an entry that marshals. -/
def Renewable (entries : List AdvertisedServer) : Prop :=
  ∀ id, (reg.lookup id).isSome → (∃ e ∈ entries, e.senderId = id) →
    ∃ e ∈ entries, e.senderId = id ∧ (build id e.data).isSome

theorem replaces_iff (hc : Coherent build reg) (entries : List AdvertisedServer) :
    (∀ id, (reg.replaceAll build entries).lookup id = replacement build entries id) ↔
      Renewable build reg entries := by
  constructor
  · intro h id hs ho
    by_contra hn
    push Not at hn
    have hnone : replacement build entries id = none := by
      refine (replacement_eq_none_iff entries id).mpr (fun e he hid => ?_)
      simpa using hn e he hid
    have hl := h id
    rw [lookup_replaceAll hc, hnone, if_neg (by simpa [entriesOf] using ho)] at hl
    rw [Option.none_or] at hl
    simp [hl] at hs
  · intro h id
    rw [lookup_replaceAll hc]
    cases hrep : replacement build entries id with
    | some cached => rfl
    | none =>
      -- no entry marshals: the id was not advertised, or it is not listed
      have hfail := (replacement_eq_none_iff entries id).mp hrep
      rw [Option.none_or, ite_eq_left_iff]
      intro ho
      by_contra hs
      have ho : ∃ e ∈ entries, e.senderId = id := by simpa [entriesOf] using ho
      obtain ⟨e, he, hid, hb⟩ := h id (Option.isSome_iff_ne_none.mpr hs) ho
      simp [hfail e he hid] at hb

section Results

variable (marshalData : ServerData → Option (List UInt8))
variable (marshalResponse : List UInt8 → UInt64 → Option (List UInt8))

/-- Skipping unchanged advertisements cannot be observed. -/
theorem replaceAll_skip_unobservable {reg : Advertised}
    (hr : Reachable (buildResponsePacket marshalData marshalResponse) reg)
    (entries : List AdvertisedServer) (id : UInt64) :
    (reg.replaceAll (buildResponsePacket marshalData marshalResponse) entries).lookup id =
      (reg.remarshalAll (buildResponsePacket marshalData marshalResponse) entries).lookup id := by
  rw [lookup_replaceAll_fold hr.coherent, lookup_remarshalAll]

/-- Marshaling that writes every string after one byte for its length. -/
def marshalShort (d : ServerData) : Option (List UInt8) :=
  let fields := [d.serverName, d.levelName, d.sessionId].map (fun s => s.toUTF8.toList)
  if fields.all (fun f => decide (f.length < 256)) then
    some (fields.flatMap (fun f => UInt8.ofNat f.length :: f))
  else none

def marshalStamped (response : List UInt8) (senderId : UInt64) : Option (List UInt8) :=
  some (senderId.toUInt8 :: response)

def longNamed : ServerAdvertisement :=
  { (default : ServerAdvertisement) with serverName := String.ofList (List.replicate 256 'a') }

def defaultWorld : Advertised :=
  [Call.advertise 7 default].foldl (call (buildResponsePacket marshalShort marshalStamped)) ∅

theorem replaceAll_skip_unobservable_renamed :
    Reachable (buildResponsePacket marshalShort marshalStamped) defaultWorld ∧
    (defaultWorld.replaceAll (buildResponsePacket marshalShort marshalStamped)
        [⟨7, default⟩, ⟨7, longNamed⟩, ⟨7, default⟩]).lookup 7 =
      (defaultWorld.remarshalAll (buildResponsePacket marshalShort marshalStamped)
        [⟨7, default⟩, ⟨7, longNamed⟩, ⟨7, default⟩]).lookup 7 :=
  ⟨⟨_, rfl⟩, replaceAll_skip_unobservable _ _ ⟨_, rfl⟩ _ 7⟩

/-- `replace_all` makes of a reachable registry what its entries call for exactly
when it can renew all it keeps, and what was advertised before leaves no trace then. -/
theorem replaceAll_replaces_iff {reg : Advertised}
    (hr : Reachable (buildResponsePacket marshalData marshalResponse) reg)
    (entries : List AdvertisedServer) :
    ((∀ id, (reg.replaceAll (buildResponsePacket marshalData marshalResponse) entries).lookup id =
        replacement (buildResponsePacket marshalData marshalResponse) entries id) ↔
      Renewable (buildResponsePacket marshalData marshalResponse) reg entries) ∧
    (∀ reg', Reachable (buildResponsePacket marshalData marshalResponse) reg' →
      Renewable (buildResponsePacket marshalData marshalResponse) reg entries →
      Renewable (buildResponsePacket marshalData marshalResponse) reg' entries →
      ∀ id, (reg.replaceAll (buildResponsePacket marshalData marshalResponse) entries).lookup id =
        (reg'.replaceAll (buildResponsePacket marshalData marshalResponse) entries).lookup id) := by
  refine ⟨replaces_iff hr.coherent entries, ?_⟩
  intro reg' hr' hn hn' id
  rw [(replaces_iff hr.coherent entries).mpr hn, (replaces_iff hr'.coherent entries).mpr hn']

theorem replaceAll_replaces_iff_renamed :
    Reachable (buildResponsePacket marshalShort marshalStamped) defaultWorld ∧
    Renewable (buildResponsePacket marshalShort marshalStamped) defaultWorld
      [⟨7, longNamed⟩, ⟨7, default⟩] ∧
    ∀ id, (defaultWorld.replaceAll (buildResponsePacket marshalShort marshalStamped)
        [⟨7, longNamed⟩, ⟨7, default⟩]).lookup id =
      replacement (buildResponsePacket marshalShort marshalStamped)
        [⟨7, longNamed⟩, ⟨7, default⟩] id := by
  have hn : Renewable (buildResponsePacket marshalShort marshalStamped) defaultWorld
      [⟨7, longNamed⟩, ⟨7, default⟩] := by
    intro id _ ho
    have hid : id = 7 := by
      obtain ⟨e, he, rfl⟩ := ho
      simp only [List.mem_cons, List.not_mem_nil, or_false] at he
      rcases he with rfl | rfl <;> rfl
    subst hid
    exact ⟨⟨7, default⟩, by simp, rfl, by decide +kernel⟩
  exact ⟨⟨_, rfl⟩, hn, (replaceAll_replaces_iff _ _ ⟨_, rfl⟩ _).1.mpr hn⟩

/-- The default world stays advertised although the only entry that is left for
it does not marshal. -/
theorem replaceAll_keeps_stale :
    Reachable (buildResponsePacket marshalShort marshalStamped) defaultWorld ∧
    ((defaultWorld.replaceAll (buildResponsePacket marshalShort marshalStamped)
        [⟨7, longNamed⟩]).lookup 7).map (fun cached => cached.data) = some default ∧
    replacement (buildResponsePacket marshalShort marshalStamped) [⟨7, longNamed⟩] 7 = none ∧
    ((∅ : Advertised).replaceAll (buildResponsePacket marshalShort marshalStamped)
        [⟨7, longNamed⟩]).lookup 7 = none :=
  ⟨⟨_, rfl⟩, by decide +kernel, by decide +kernel, by decide +kernel⟩

end Results

end Advertised

end Mineshaft.Core
