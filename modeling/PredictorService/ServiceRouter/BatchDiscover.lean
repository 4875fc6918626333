/-
  PredictorService.ServiceRouter.BatchDiscover — the batch discovery of many routes
  (service_router/router.cc, `Router::batchDiscover`, `ServerList::ServerList`).

  Routes whose lists have one hash code share one selection. The hash code of a list runs
  over the texts of its servers, a host directly followed by a port, so that it names the
  sequence of texts and not that of the addresses: `10.0.0.1` and port 19000 are the text
  of `10.0.0.11` and port 9000.
  - `batchLoop_spec`: a route is answered with the selection of the first route of the
    batch whose list has its hash code.
  - `staysInside_iff`: a batch stays inside each route's own list iff the list selected
    from has no server but those of it (`a_batch_leaves_its_route`).
-/

import PredictorService.ServiceRouter.EdgeNodes

namespace PredictorService.ServiceRouter.LoadBalance

open PredictorService.Lib (FinMap)
open PredictorService.Thirdparty (cityHash64WithSeed)
open RouterDb (Ev)

/-! ## Hash codes -/

/-- What is hashed of a server. -/
def hashStr (t : Server) : String := t.host ++ toString t.port.toNat

theorem hashCode_concat (H : Hash64) (list : ServerList) (t : Server) :
    hashCode H (list ++ [t]) = H (hashStr t) (hashCode H list) := by
  simp [hashCode, hashStr]

/-- The pairs of a text and a seed that are hashed for a list. -/
def hashed (H : Hash64) (seed : UInt64) : ServerList → List (String × UInt64)
  | [] => []
  | t :: list => (hashStr t, seed) :: hashed H (H (hashStr t) seed) list

theorem hashed_concat (H : Hash64) (list : ServerList) (t : Server) :
    hashed H 0 (list ++ [t]) = hashed H 0 list ++ [(hashStr t, hashCode H list)] := by
  suffices h : ∀ seed, hashed H seed (list ++ [t]) =
      hashed H seed list ++ [(hashStr t, list.foldl (fun h t => H (hashStr t) h) seed)] from h 0
  induction list with
  | nil => intro seed; rfl
  | cons u list ih =>
    intro seed
    rw [List.cons_append, hashed, hashed, ih, List.cons_append, List.foldl_cons]

/-- Every pair that is hashed for the list is in play. -/
def HashedIn (H : Hash64) (P : Set (String × UInt64)) (list : ServerList) : Prop := ∀ p ∈ hashed H 0 list, p ∈ P

theorem HashedIn.concat {H : Hash64} {P : Set (String × UInt64)} {list : ServerList} {t : Server}
    (h : HashedIn H P (list ++ [t])) : HashedIn H P list ∧ (hashStr t, hashCode H list) ∈ P := by
  unfold HashedIn at h ⊢
  rw [hashed_concat] at h
  exact ⟨fun p hp => h p (List.mem_append_left _ hp), h _ (by simp)⟩

/-- The hash is injective on the pairs in play, and none of them hashes to the start value,
    which is the hash code of no servers at all. -/
structure HashFree (H : Hash64) (P : Set (String × UInt64)) : Prop where
  inj : ∀ p ∈ P, ∀ q ∈ P, H p.1 p.2 = H q.1 q.2 → p = q
  start : ∀ p ∈ P, H p.1 p.2 ≠ 0

/-- A hash code names the sequence of texts. -/
theorem hashCode_inj {H : Hash64} {P : Set (String × UInt64)} (hP : HashFree H P) {list list' : ServerList}
    (hl : HashedIn H P list) (hl' : HashedIn H P list') (h : hashCode H list = hashCode H list') :
    list.map hashStr = list'.map hashStr := by
  induction list using List.reverseRecOn generalizing list' with
  | nil =>
    rcases List.eq_nil_or_concat' list' with rfl | ⟨init, u, rfl⟩
    · rfl
    · rw [hashCode_concat] at h
      exact absurd h.symm (hP.start _ hl'.concat.2)
  | append_singleton init t ih =>
    rcases List.eq_nil_or_concat' list' with rfl | ⟨init', u, rfl⟩
    · rw [hashCode_concat] at h
      exact absurd h (hP.start _ hl.concat.2)
    · rw [hashCode_concat, hashCode_concat] at h
      obtain ⟨htext, hseed⟩ := Prod.mk.inj (hP.inj _ hl.concat.2 _ hl'.concat.2 h)
      have hinit := ih hl.concat.1 hl'.concat.1 hseed
      rw [List.map_append, List.map_append, hinit, List.map_singleton, List.map_singleton, htext]

theorem hashCode_congr (H : Hash64) {list list' : ServerList} (h : list.map hashStr = list'.map hashStr) :
    hashCode H list = hashCode H list' := by
  have hfold : ∀ l : ServerList, hashCode H l = (l.map hashStr).foldl (fun h s => H s h) 0 := by
    intro l
    rw [List.foldl_map]
    rfl
  rw [hfold, hfold, h]

theorem hashStr_of_address {list list' : ServerList} (h : list.map addressOf = list'.map addressOf) :
    list.map hashStr = list'.map hashStr := by
  have hmap : ∀ l : ServerList, l.map hashStr = (l.map addressOf).map fun a => a.host ++ toString a.port.toNat := by
    intro l
    rw [List.map_map]
    rfl
  rw [hmap, hmap, h]

/-! ## Lists of the table -/

theorem noEmpty_publish (H : Hash64) {db : RouterDb} (hdb : ∀ k l, db.serviceRegistry.lookup k = some l → l ≠ [])
    (name : String) (ts : List Server) (k : UInt64) (l : ServerList)
    (h : (db.publish name (RouterDb.builtOf H name ts)).serviceRegistry.lookup k = some l) : l ≠ [] := by
  have hgrouped : ∀ pushed : List (UInt64 × Server), ∀ l, (FinMap.groupUp ∅ pushed).lookup k = some l → l ≠ [] := by
    intro pushed l hl
    rw [FinMap.lookup_groupUp] at hl
    split at hl
    · simp at hl
    · rename_i hne
      rw [← Option.some.inj hl]
      simpa using hne
  rw [RouterDb.lookup_publish] at h
  rcases Option.or_eq_some_iff.mp h with h | ⟨-, h⟩
  · exact hgrouped _ l h
  · rcases Option.or_eq_some_iff.mp h with h | ⟨-, h⟩
    · exact hgrouped _ l h
    · split at h
      · cases h
      · exact hdb k l h

/-- No list of a reachable table is empty. -/
theorem noEmpty_run (H : Hash64) (evs : List Ev) {db : RouterDb}
    (hdb : ∀ k l, db.serviceRegistry.lookup k = some l → l ≠ []) :
    ∀ k l, (db.run H evs).serviceRegistry.lookup k = some l → l ≠ [] := by
  induction evs generalizing db with
  | nil => exact hdb
  | cons e evs ih =>
    refine ih ?_
    cases e with
    | updateConfig name config => exact hdb
    | updateServers name list now =>
      rcases RouterDb.apply_update H db name list now with h | ⟨ts, -, h⟩
      · rw [h]
        exact hdb
      · rw [h]
        exact noEmpty_publish H hdb name ts

/-! ## The loop -/

section Loop

variable (H : Hash64) (db : RouterDb) (option : ClientOption)

/-- The list of a route. -/
def listOf (routeId : Int64) : Option ServerList := db.selectServers H (routeOf option routeId)

theorem listOf_ne_nil (evs : List Ev) (routeId : Int64) (list : ServerList)
    (h : listOf H (RouterDb.run H {} evs) option routeId = some list) : list ≠ [] :=
  noEmpty_run H evs (fun k l h => by simp at h) _ list h

/-- Balancers of the class `B` select a server from every list of the batch, whatever a
    generator of `X` answers, and stay in the class. -/
def AlwaysSelects (routeIds : List Int64) (X : Set Chance) (B : Set Balancer) : Prop :=
  ∀ b ∈ B, ∀ routeId ∈ routeIds, ∀ list, listOf H db option routeId = some list → ∀ tid, ∀ x ∈ X,
    ∃ t, ∃ b' ∈ B, select list tid x b = (some (some t), b')

/-- The balancer in force for the option is of the class. -/
def InClass (B : Set Balancer) (balancers : Balancers) : Prop :=
  ∃ b ∈ B, getOrCreateBalance H balancers option = some b

/-- The first route of the batch whose list looks the same. -/
def firstLike {α : Type} [DecidableEq α] (look : ServerList → α) (routeIds : List Int64) (list : ServerList) : Option Int64 :=
  routeIds.find? fun k => (listOf H db option k).map look = some (look list)

/-- What the loop has selected: for each hash code of the routes so far, a server of the
    first list with it. -/
structure Selected (X : Set Chance) (B : Set Balancer) (seen : List Int64) (selected : FinMap UInt64 (Option Server)) :
    Prop where
  done : ∀ k ∈ seen, ∀ list, listOf H db option k = some list → ∃ o, selected.lookup (hashCode H list) = some o
  first : ∀ h o, selected.lookup h = some o → ∃ k ∈ seen, ∃ list t, listOf H db option k = some list ∧
    hashCode H list = h ∧ firstLike H db option (hashCode H) seen list = some k ∧ o = some t ∧
    ∃ b ∈ B, ∃ tid, ∃ x ∈ X, (select list tid x b).1 = some (some t)

/-- The answers for the routes so far. -/
def Answered (seen : List Int64) (selected : FinMap UInt64 (Option Server)) (result : FinMap Int64 (Option Server)) :
    Prop :=
  ∀ k ∈ seen, result.lookup k = match listOf H db option k with
    | none => some none
    | some list => selected.lookup (hashCode H list)

variable {H db option} {X : Set Chance} {B : Set Balancer}

theorem selectServers_alwaysSelects {routeIds : List Int64} (hB : AlwaysSelects H db option routeIds X B)
    {balancers : Balancers} (hin : InClass H option B balancers) {routeId : Int64} (hid : routeId ∈ routeIds)
    {list : ServerList} (hlist : listOf H db option routeId = some list) (tid : Nat) {x : Chance} (hx : x ∈ X) :
    ∃ t balancers', selectServers H balancers option list tid x = (some (some t), balancers') ∧
      InClass H option B balancers' ∧ ∃ b ∈ B, (select list tid x b).1 = some (some t) := by
  obtain ⟨b, hb, hget⟩ := hin
  obtain ⟨t, b', hb', hsel⟩ := hB b hb routeId hid list hlist tid x hx
  refine ⟨t, balancers.insert (balanceId H option) b', ?_, ⟨b', hb', ?_⟩, b, hb, by rw [hsel]⟩
  · simp only [selectServers, hget, hsel]
  · rw [getOrCreateBalance, Finmap.lookup_insert, Option.some_or]

theorem firstLike_append {α : Type} [DecidableEq α] {look : ServerList → α} {seen : List Int64} {list : ServerList}
    {k : Int64} (h : firstLike H db option look seen list = some k) (more : List Int64) :
    firstLike H db option look (seen ++ more) list = some k := by
  unfold firstLike at h ⊢
  rw [List.find?_append, h, Option.some_or]

/-- A route that brings no new hash code. -/
theorem Selected.append {seen : List Int64} {selected : FinMap UInt64 (Option Server)}
    (h : Selected H db option X B seen selected) {routeId : Int64}
    (hold : ∀ list, listOf H db option routeId = some list → ∃ o, selected.lookup (hashCode H list) = some o) :
    Selected H db option X B (seen ++ [routeId]) selected := by
  refine ⟨fun k hk list hlist => ?_, fun code o hcode => ?_⟩
  · rcases List.mem_append.mp hk with hk | hk
    · exact h.done k hk list hlist
    · rw [List.mem_singleton.mp hk] at hlist
      exact hold list hlist
  · obtain ⟨k, hk, list, t, hlist, hhash, hfirst, ho⟩ := h.first code o hcode
    exact ⟨k, List.mem_append_left _ hk, list, t, hlist, hhash, firstLike_append hfirst _, ho⟩

/-- A route whose hash code is new. -/
theorem Selected.insert {seen : List Int64} {selected : FinMap UInt64 (Option Server)}
    (h : Selected H db option X B seen selected) {routeId : Int64} {list : ServerList}
    (hlist : listOf H db option routeId = some list) (hnew : selected.lookup (hashCode H list) = none) {t : Server}
    (hsel : ∃ b ∈ B, ∃ tid, ∃ x ∈ X, (select list tid x b).1 = some (some t)) :
    Selected H db option X B (seen ++ [routeId]) (selected.insert (hashCode H list) (some t)) := by
  refine ⟨fun k hk list' hlist' => ?_, fun code o hcode => ?_⟩
  · rw [FinMap.lookup_insert_ite]
    split
    · exact ⟨_, rfl⟩
    · rename_i hne
      rcases List.mem_append.mp hk with hk | hk
      · exact h.done k hk list' hlist'
      · rw [List.mem_singleton.mp hk, hlist] at hlist'
        exact absurd (by rw [Option.some.inj hlist']) hne
  · rw [FinMap.lookup_insert_ite] at hcode
    split at hcode
    · rename_i heq
      subst heq
      refine ⟨routeId, by simp, list, t, hlist, rfl, ?_, (Option.some.inj hcode).symm, hsel⟩
      -- no earlier route has this hash code, or it would have been selected for
      have hnone : firstLike H db option (hashCode H) seen list = none := by
        refine List.find?_eq_none.mpr fun k hk hlike => ?_
        obtain ⟨l, hl, hhash⟩ := Option.map_eq_some_iff.mp (of_decide_eq_true hlike)
        obtain ⟨o', ho'⟩ := h.done k hk l hl
        rw [hhash, hnew] at ho'
        cases ho'
      unfold firstLike at hnone ⊢
      rw [List.find?_append, hnone, Option.none_or]
      simp [hlist]
    · obtain ⟨k, hk, l, u, hl, hhash, hfirst, ho⟩ := h.first code o hcode
      exact ⟨k, List.mem_append_left _ hk, l, u, hl, hhash, firstLike_append hfirst _, ho⟩

theorem Answered.append {seen : List Int64} {selected : FinMap UInt64 (Option Server)} {result : FinMap Int64 (Option Server)}
    (h : Answered H db option seen selected result) {routeId : Int64} {o : Option Server}
    (ho : (match listOf H db option routeId with
      | none => some none
      | some list => selected.lookup (hashCode H list)) = some o) :
    Answered H db option (seen ++ [routeId]) selected (result.insert routeId o) := by
  intro k hk
  rw [FinMap.lookup_insert_ite]
  split
  · rename_i heq
    rw [heq, ho]
  · rename_i hne
    rcases List.mem_append.mp hk with hk | hk
    · exact h k hk
    · exact absurd (List.mem_singleton.mp hk) hne

/-- A new selection does not change the answers so far. -/
theorem Answered.insert {seen : List Int64} {selected : FinMap UInt64 (Option Server)} {result : FinMap Int64 (Option Server)}
    (h : Answered H db option seen selected result) (hs : Selected H db option X B seen selected) {code : UInt64}
    (hnew : selected.lookup code = none) (o : Option Server) :
    Answered H db option seen (selected.insert code o) result := by
  intro k hk
  rw [h k hk]
  cases hlist : listOf H db option k with
  | none => rfl
  | some list =>
    obtain ⟨o', ho'⟩ := hs.done k hk list hlist
    have hne : hashCode H list ≠ code := by
      intro heq
      rw [heq, hnew] at ho'
      cases ho'
    show selected.lookup (hashCode H list) = (selected.insert code o).lookup (hashCode H list)
    rw [FinMap.lookup_insert_ite, if_neg hne]

/-- The loop from any round on. -/
theorem batchLoop_spec {routeIds : List Int64} (hB : AlwaysSelects H db option routeIds X B) (tid : Nat)
    {xs : Nat → Chance} (hxs : ∀ n, xs n ∈ X) {todo seen : List Int64} (hids : routeIds = seen ++ todo)
    {balancers : Balancers} (hin : InClass H option B balancers) {result : FinMap Int64 (Option Server)}
    {selected : FinMap UInt64 (Option Server)} (hs : Selected H db option X B seen selected)
    (ha : Answered H db option seen selected result) :
    ∃ result' selected', (batchLoop H db option tid xs balancers result selected todo).1 = some result' ∧
      Selected H db option X B routeIds selected' ∧ Answered H db option routeIds selected' result' := by
  induction todo generalizing seen balancers result selected with
  | nil =>
    rw [List.append_nil] at hids
    subst hids
    exact ⟨result, selected, rfl, hs, ha⟩
  | cons routeId todo ih =>
    have hid : routeId ∈ routeIds := by simp [hids]
    have hids' : routeIds = (seen ++ [routeId]) ++ todo := by simp [hids]
    cases hlist : listOf H db option routeId with
    | none =>
      have hloop : batchLoop H db option tid xs balancers result selected (routeId :: todo) =
          batchLoop H db option tid xs balancers (result.insert routeId none) selected todo := by
        unfold listOf at hlist
        simp only [batchLoop, hlist]
      rw [hloop]
      refine ih hids' hin (hs.append fun list h => ?_) (ha.append (by rw [hlist]))
      rw [hlist] at h
      cases h
    | some list =>
      cases hsel : selected.lookup (hashCode H list) with
      | some o =>
        have hloop : batchLoop H db option tid xs balancers result selected (routeId :: todo) =
            batchLoop H db option tid xs balancers (result.insert routeId o) selected todo := by
          unfold listOf at hlist
          simp only [batchLoop, hlist, hsel]
        rw [hloop]
        refine ih hids' hin (hs.append fun list' h => ?_) (ha.append (by rw [hlist]; exact hsel))
        rw [hlist] at h
        exact ⟨o, Option.some.inj h ▸ hsel⟩
      | none =>
        obtain ⟨t, balancers', hselect, hin', hdrawn⟩ :=
          selectServers_alwaysSelects hB hin hid hlist tid (hxs todo.length)
        have hloop : batchLoop H db option tid xs balancers result selected (routeId :: todo) =
            batchLoop H db option tid xs balancers' (result.insert routeId (some t))
              (selected.insert (hashCode H list) (some t)) todo := by
          unfold listOf at hlist
          simp only [batchLoop, hlist, hsel, hselect]
        obtain ⟨b, hb, hdraw⟩ := hdrawn
        rw [hloop]
        refine ih hids' hin' (hs.insert hlist hsel ⟨b, hb, tid, _, hxs todo.length, hdraw⟩)
          ((ha.insert hs hsel (some t)).append ?_)
        rw [hlist]
        exact Finmap.lookup_insert _

theorem batchDiscover_spec {routeIds : List Int64} (hB : AlwaysSelects H db option routeIds X B) {balancers : Balancers}
    (hin : InClass H option B balancers) (tid : Nat) {xs : Nat → Chance} (hxs : ∀ n, xs n ∈ X) :
    ∃ result selected, (batchDiscover H db balancers option routeIds tid xs).1 = some result ∧
      Selected H db option X B routeIds selected ∧ Answered H db option routeIds selected result := by
  refine batchLoop_spec hB tid hxs (List.nil_append routeIds).symm hin ⟨fun k hk => ?_, fun h o ho => ?_⟩ fun k hk => ?_
  · cases hk
  · simp at ho
  · cases hk

end Loop

/-! ## Inside each route -/

section Stays

variable (H : Hash64) (db : RouterDb) (option : ClientOption) (routeIds : List Int64) {β : Type} (f : Server → β)

/-- `batchDiscover` returns for every balancer that always selects. A route is answered with
    none iff it has no list, and else with a server of its own list, as far as `f` tells
    servers apart (`id`: the record; `addressOf`: host and port). Routes with equal sequences
    of addresses get one server. -/
def StaysInside : Prop :=
  ∀ X B, AlwaysSelects H db option routeIds X B → ∀ balancers, InClass H option B balancers → ∀ tid xs, (∀ n, xs n ∈ X) →
    ∃ result, (batchDiscover H db balancers option routeIds tid xs).1 = some result ∧
      (∀ routeId ∈ routeIds, ∃ o, result.lookup routeId = some o ∧ (o = none ↔ listOf H db option routeId = none) ∧
        ∀ t list, o = some t → listOf H db option routeId = some list → f t ∈ list.map f) ∧
      ∀ routeId ∈ routeIds, ∀ routeId' ∈ routeIds, ∀ list list', listOf H db option routeId = some list →
        listOf H db option routeId' = some list' → list.map addressOf = list'.map addressOf →
        result.lookup routeId = result.lookup routeId'

/-- The first list of the batch with a route's sequence of texts has no server that is not
    one of the route's own list. -/
def SharesOwn : Prop :=
  ∀ routeId ∈ routeIds, ∀ list, listOf H db option routeId = some list → ∀ k shared,
    firstLike H db option (List.map hashStr) routeIds list = some k → listOf H db option k = some shared →
    ∀ t ∈ shared, f t ∈ list.map f

variable {H db option routeIds f} {P : Set (String × UInt64)}

/-- One hash code is one sequence of texts. -/
theorem firstLike_texts (hP : HashFree H P)
    (hplay : ∀ routeId ∈ routeIds, ∀ list, listOf H db option routeId = some list → HashedIn H P list) {list : ServerList}
    (hlist : HashedIn H P list) :
    firstLike H db option (List.map hashStr) routeIds list = firstLike H db option (hashCode H) routeIds list := by
  unfold firstLike
  rw [← List.head?_filter, ← List.head?_filter]
  refine congrArg List.head? (List.filter_congr fun k hk => ?_)
  cases hl : listOf H db option k with
  | none => simp
  | some l =>
    have hiff : l.map hashStr = list.map hashStr ↔ hashCode H l = hashCode H list :=
      ⟨hashCode_congr H, hashCode_inj hP (hplay k hk l hl) hlist⟩
    simp [hiff]

/-- A route is answered with a server drawn from the first list with its texts. -/
theorem answered_from_first (hP : HashFree H P)
    (hplay : ∀ routeId ∈ routeIds, ∀ list, listOf H db option routeId = some list → HashedIn H P list) {X : Set Chance}
    {B : Set Balancer} {selected : FinMap UInt64 (Option Server)} {result : FinMap Int64 (Option Server)}
    (hs : Selected H db option X B routeIds selected) (ha : Answered H db option routeIds selected result)
    {routeId : Int64} (hid : routeId ∈ routeIds) {list : ServerList} (hlist : listOf H db option routeId = some list) :
    ∃ k shared t, firstLike H db option (List.map hashStr) routeIds list = some k ∧ listOf H db option k = some shared ∧
      result.lookup routeId = some (some t) ∧ ∃ b ∈ B, ∃ tid, ∃ x ∈ X, (select shared tid x b).1 = some (some t) := by
  obtain ⟨o, ho⟩ := hs.done routeId hid list hlist
  obtain ⟨k, hk, shared, t, hshared, hhash, hfirst, rfl, hdrawn⟩ := hs.first _ o ho
  refine ⟨k, shared, t, ?_, hshared, ?_, hdrawn⟩
  · rw [firstLike_texts hP hplay (hplay routeId hid list hlist), ← hfirst]
    unfold firstLike
    rw [hhash]
  · rw [ha routeId hid, hlist]
    exact ho

theorem pickAny_of_ne_nil {list : ServerList} (hne : list ≠ []) (x : Chance) : ∃ t, pickAny list x = some t := by
  have hlen := List.length_pos_iff.mpr hne
  have hlt : secureRand32 (size list) x < list.length := by
    unfold secureRand32 size
    split
    · exact hlen
    · rename_i hsize
      have h1 := Nat.mod_lt x.draw (Nat.pos_of_ne_zero hsize)
      have h2 := Nat.mod_le list.length 4294967296
      omega
  exact ⟨_, List.getElem?_eq_getElem hlt⟩

theorem pickAny_draw {list : ServerList} (hlen : list.length < 4294967296) {i : Nat} (hi : i < list.length) :
    pickAny list { draw := i } = list[i]? := by
  have hsize : size list = list.length := Nat.mod_eq_of_lt hlen
  have hdraw : secureRand32 (size list) { draw := i } = i := by
    unfold secureRand32
    rw [hsize, if_neg (by omega)]
    exact Nat.mod_eq_of_lt hi
  rw [pickAny, hdraw]

theorem alwaysSelects_random (routeIds : List Int64)
    (hne : ∀ routeId list, listOf H db option routeId = some list → list ≠ []) (X : Set Chance) :
    AlwaysSelects H db option routeIds X {.random} := by
  intro b hb routeId _ list hlist tid x _
  obtain rfl : b = .random := hb
  obtain ⟨t, ht⟩ := pickAny_of_ne_nil (hne routeId list hlist) x
  refine ⟨t, .random, rfl, ?_⟩
  simp only [select, if_neg (hne routeId list hlist), selectFrom, ht]

theorem inClass_random (H : Hash64) (option : ClientOption) :
    InClass H option {.random} (Finmap.singleton (balanceId H option) .random) := by
  refine ⟨.random, rfl, ?_⟩
  rw [getOrCreateBalance, Finmap.lookup_singleton_eq, Option.some_or]

theorem stays_of_sharesOwn (hP : HashFree H P)
    (hplay : ∀ routeId ∈ routeIds, ∀ list, listOf H db option routeId = some list → HashedIn H P list)
    (h : SharesOwn H db option routeIds f) : StaysInside H db option routeIds f := by
  intro X B hB balancers hin tid xs hxs
  obtain ⟨result, selected, hres, hs, ha⟩ := batchDiscover_spec hB hin tid hxs
  refine ⟨result, hres, fun routeId hid => ?_, fun routeId hid routeId' hid' list list' hlist hlist' haddr => ?_⟩
  · cases hlist : listOf H db option routeId with
    | none =>
      refine ⟨none, ?_, by simp, fun t list ht => by cases ht⟩
      rw [ha routeId hid, hlist]
    | some list =>
      obtain ⟨k, shared, t, hfirst, hshared, hlookup, b, -, tid', x, -, hsel⟩ :=
        answered_from_first hP hplay hs ha hid hlist
      refine ⟨some t, hlookup, by simp, fun t' list' ht hl => ?_⟩
      obtain rfl := Option.some.inj ht
      obtain rfl := Option.some.inj hl
      exact h routeId hid list hlist k shared hfirst hshared t (mem_of_select hsel)
  · rw [ha routeId hid, ha routeId' hid', hlist, hlist']
    show selected.lookup (hashCode H list) = selected.lookup (hashCode H list')
    rw [hashCode_congr H (hashStr_of_address haddr)]

/-- A random balancer can draw any server of the shared list. -/
theorem sharesOwn_of_stays (hP : HashFree H P)
    (hplay : ∀ routeId ∈ routeIds, ∀ list, listOf H db option routeId = some list → HashedIn H P list)
    (hne : ∀ routeId list, listOf H db option routeId = some list → list ≠ [])
    (hlen : ∀ routeId ∈ routeIds, ∀ list, listOf H db option routeId = some list → list.length < 4294967296)
    (h : StaysInside H db option routeIds f) : SharesOwn H db option routeIds f := by
  intro routeId hid list hlist k shared hfirst hshared t ht
  obtain ⟨i, hi, hget⟩ := List.getElem_of_mem ht
  have hk : k ∈ routeIds := List.mem_of_find?_eq_some hfirst
  have hB := alwaysSelects_random routeIds hne {{ draw := i }}
  have hin := inClass_random H option
  have hxs : ∀ n : Nat, (fun _ => ({ draw := i } : Chance)) n ∈ ({{ draw := i }} : Set Chance) := fun _ => rfl
  obtain ⟨result, hres, hstays, -⟩ := h _ _ hB _ hin 0 _ hxs
  obtain ⟨result', selected, hres', hs, ha⟩ := batchDiscover_spec hB hin 0 hxs
  obtain rfl : result = result' := Option.some.inj (hres.symm.trans hres')
  obtain ⟨k', shared', t', hfirst', hshared', hlookup, b, hb, tid, x, hx, hsel⟩ :=
    answered_from_first hP hplay hs ha hid hlist
  obtain rfl : k = k' := Option.some.inj (hfirst.symm.trans hfirst')
  obtain rfl : shared = shared' := Option.some.inj (hshared.symm.trans hshared')
  have htt : t' = t := by
    obtain rfl : b = .random := hb
    obtain rfl : x = { draw := i } := hx
    simp only [select, if_neg (hne k shared hshared), selectFrom, pickAny_draw (hlen k hk shared hshared) hi,
      List.getElem?_eq_getElem hi, hget, Option.some.injEq] at hsel
    exact hsel.symm
  obtain ⟨o, ho, -, hmem⟩ := hstays routeId hid
  rw [hlookup] at ho
  exact hmem t list (by rw [← Option.some.inj ho, htt]) hlist

end Stays

/-- For every reachable table, option and batch: it is enough that the lists selected from
    are within the routes' own, and for lists whose sizes fit 32 bits (as `select` reads
    them) that is needed too. -/
theorem staysInside_iff {β : Type} (f : Server → β) (H : Hash64) (evs : List Ev) (option : ClientOption)
    (routeIds : List Int64) {P : Set (String × UInt64)} (hP : HashFree H P)
    (hplay : ∀ routeId ∈ routeIds, ∀ list, listOf H (RouterDb.run H {} evs) option routeId = some list →
      HashedIn H P list) :
    (SharesOwn H (RouterDb.run H {} evs) option routeIds f → StaysInside H (RouterDb.run H {} evs) option routeIds f) ∧
    ((∀ routeId ∈ routeIds, ∀ list, listOf H (RouterDb.run H {} evs) option routeId = some list →
        list.length < 4294967296) →
      StaysInside H (RouterDb.run H {} evs) option routeIds f → SharesOwn H (RouterDb.run H {} evs) option routeIds f) := by
  exact ⟨stays_of_sharesOwn hP hplay, sharesOwn_of_stays hP hplay (listOf_ne_nil H option evs)⟩

/-! ## Two addresses with one text -/

/-- A server of a shard. -/
def shardAt (host : String) (port : UInt16) (shard : UInt32) : Server :=
  { host := host, port := port, serviceName := "predictor", status := .available, shardList := [shard],
    availableShardList := [shard] }

/-- One of a list at random. -/
def atRandom : ClientOption where
  serviceName := "predictor"
  protocol := .thrift
  loadBalance := .random

/-- Shard 1 and shard 2 on the servers. -/
def shardsOneTwo (host : String) (port : UInt16) : List Ev :=
  [.updateServers "predictor" [shardAt "10.0.0.1" 19000 1, shardAt host port 2] 0]

/-- The pairs hashed for the lists of the batch are those of `P`. -/
theorem hashedIn_of_decide {db : RouterDb} {routeIds : List Int64} {P : List (String × UInt64)}
    (h : (routeIds.all fun routeId => (listOf cityHash64WithSeed db atRandom routeId).toList.all fun list =>
      (hashed cityHash64WithSeed 0 list).all fun p => P.contains p) = true) :
    ∀ routeId ∈ routeIds, ∀ list, listOf cityHash64WithSeed db atRandom routeId = some list →
      HashedIn cityHash64WithSeed {p | p ∈ P} list := by
  simp only [List.all_eq_true, List.contains_iff_mem] at h
  exact fun routeId hid list hlist => h routeId hid list (Option.mem_toList.mpr hlist)

theorem sharesOwn_apart :
    SharesOwn cityHash64WithSeed (RouterDb.run cityHash64WithSeed {} (shardsOneTwo "10.0.0.12" 9000)) atRandom [1, 2, 1] id := by
  have h : (([1, 2, 1] : List Int64).all fun routeId =>
      (listOf cityHash64WithSeed (RouterDb.run cityHash64WithSeed {} (shardsOneTwo "10.0.0.12" 9000)) atRandom
        routeId).toList.all fun list =>
      (firstLike cityHash64WithSeed (RouterDb.run cityHash64WithSeed {} (shardsOneTwo "10.0.0.12" 9000)) atRandom
        (List.map hashStr) [1, 2, 1] list).toList.all fun k =>
      (listOf cityHash64WithSeed (RouterDb.run cityHash64WithSeed {} (shardsOneTwo "10.0.0.12" 9000)) atRandom
        k).toList.all fun shared => shared.all fun t => list.contains t) = true := by
    decide +kernel
  simp only [List.all_eq_true, List.contains_iff_mem] at h
  intro routeId hid list hlist k shared hfirst hshared t ht
  rw [List.map_id]
  exact h routeId hid list (Option.mem_toList.mpr hlist) k (Option.mem_toList.mpr hfirst) shared
    (Option.mem_toList.mpr hshared) t ht

/-- Servers whose texts differ. -/
theorem staysInside_iff_apart :
    StaysInside cityHash64WithSeed (RouterDb.run cityHash64WithSeed {} (shardsOneTwo "10.0.0.12" 9000)) atRandom [1, 2, 1]
      id := by
  have hP : HashFree cityHash64WithSeed {p | p ∈ [("10.0.0.119000", (0 : UInt64)), ("10.0.0.129000", 0)]} := by
    have hinj : ∀ p ∈ [("10.0.0.119000", (0 : UInt64)), ("10.0.0.129000", 0)],
        ∀ q ∈ [("10.0.0.119000", (0 : UInt64)), ("10.0.0.129000", 0)],
        cityHash64WithSeed p.1 p.2 = cityHash64WithSeed q.1 q.2 → p = q := by decide +kernel
    have hstart : ∀ p ∈ [("10.0.0.119000", (0 : UInt64)), ("10.0.0.129000", 0)],
        cityHash64WithSeed p.1 p.2 ≠ 0 := by decide +kernel
    exact ⟨hinj, hstart⟩
  exact (staysInside_iff id cityHash64WithSeed (shardsOneTwo "10.0.0.12" 9000) atRandom [1, 2, 1] hP
    (hashedIn_of_decide (by decide +kernel))).1 sharesOwn_apart

/-- Shard 1 is on `10.0.0.1` and port 19000, shard 2 on `10.0.0.11` and port 9000: one
    text, one hash code, and both routes are answered with the first server. -/
theorem a_batch_leaves_its_route :
    HashFree cityHash64WithSeed {p | p ∈ [("10.0.0.119000", (0 : UInt64))]} ∧
    (∀ routeId ∈ ([1, 2] : List Int64), ∀ list, listOf cityHash64WithSeed (RouterDb.run cityHash64WithSeed {}
        (shardsOneTwo "10.0.0.11" 9000)) atRandom routeId = some list →
      HashedIn cityHash64WithSeed {p | p ∈ [("10.0.0.119000", (0 : UInt64))]} list) ∧
    ¬ StaysInside cityHash64WithSeed (RouterDb.run cityHash64WithSeed {} (shardsOneTwo "10.0.0.11" 9000)) atRandom [1, 2]
      id ∧
    ¬ StaysInside cityHash64WithSeed (RouterDb.run cityHash64WithSeed {} (shardsOneTwo "10.0.0.11" 9000)) atRandom [1, 2]
      addressOf := by
  have hinj : ∀ p ∈ [("10.0.0.119000", (0 : UInt64))], ∀ q ∈ [("10.0.0.119000", (0 : UInt64))],
      cityHash64WithSeed p.1 p.2 = cityHash64WithSeed q.1 q.2 → p = q := by decide +kernel
  have hstart : ∀ p ∈ [("10.0.0.119000", (0 : UInt64))], cityHash64WithSeed p.1 p.2 ≠ 0 := by decide +kernel
  have hplay : ∀ routeId ∈ ([1, 2] : List Int64), ∀ list, listOf cityHash64WithSeed (RouterDb.run cityHash64WithSeed {}
      (shardsOneTwo "10.0.0.11" 9000)) atRandom routeId = some list →
      HashedIn cityHash64WithSeed {p | p ∈ [("10.0.0.119000", (0 : UInt64))]} list :=
    hashedIn_of_decide (by decide +kernel)
  have hfirst : listOf cityHash64WithSeed (RouterDb.run cityHash64WithSeed {} (shardsOneTwo "10.0.0.11" 9000)) atRandom 1 =
      some [{ shardAt "10.0.0.1" 19000 1 with hostLong := 167772161 }] := by
    decide +kernel
  have hlist : listOf cityHash64WithSeed (RouterDb.run cityHash64WithSeed {} (shardsOneTwo "10.0.0.11" 9000)) atRandom 2 =
      some [{ shardAt "10.0.0.11" 9000 2 with hostLong := 167772171 }] := by
    decide +kernel
  have hlen : ∀ routeId ∈ ([1, 2] : List Int64), ∀ list, listOf cityHash64WithSeed (RouterDb.run cityHash64WithSeed {}
      (shardsOneTwo "10.0.0.11" 9000)) atRandom routeId = some list → list.length < 4294967296 := by
    intro routeId hid list h
    rcases List.mem_pair.mp hid with rfl | rfl
    · rw [← Option.some.inj (hfirst.symm.trans h)]
      decide
    · rw [← Option.some.inj (hlist.symm.trans h)]
      decide
  -- the first list of the batch with the text of the second route is that of the first
  have hstays : ∀ {β : Type} (f : Server → β), StaysInside cityHash64WithSeed (RouterDb.run cityHash64WithSeed {}
      (shardsOneTwo "10.0.0.11" 9000)) atRandom [1, 2] f →
      f { shardAt "10.0.0.1" 19000 1 with hostLong := 167772161 } ∈
        [{ shardAt "10.0.0.11" 9000 2 with hostLong := 167772171 }].map f := by
    intro β f h
    have hshares := sharesOwn_of_stays ⟨hinj, hstart⟩ hplay (listOf_ne_nil _ _ _) hlen h
    exact hshares 2 (by decide) _ hlist 1 _ (by decide +kernel) hfirst _ (List.mem_singleton.mpr rfl)
  refine ⟨⟨hinj, hstart⟩, hplay, fun h => ?_, fun h => ?_⟩
  · simpa [shardAt] using hstays id h
  · simpa [shardAt, addressOf] using hstays addressOf h

end PredictorService.ServiceRouter.LoadBalance
