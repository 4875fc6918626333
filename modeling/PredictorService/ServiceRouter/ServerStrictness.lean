/-
  PredictorService.ServiceRouter.ServerStrictness — numbers of a server that another program
  has written (build_tools/entity_generator.php; service_router/registry.cc,
  `ConsulRegistry::processDiscover`).

  What `Server::deserialize` returns true for is a server, whatever numbers the object has
  (`Server.exists_toValue`), and so it is discovered. Its members have the numbers of the
  object iff each of these fits the type of its member (`Server.deserialize_exact_iff`): a
  port of 65616 is discovered as port 80 (`a_large_port_wraps`).
-/

import Mathlib.Data.Set.List
import PredictorService.BuildTools.EntityStrictness
import PredictorService.ServiceRouter.ServerCodec

namespace PredictorService.ServiceRouter

open PredictorService.Lib
open PredictorService.BuildTools

/-! ## Every value of the class is a server -/

theorem lt_of_string_lt {k k' : String} (h : Scalar.string k < Scalar.string k') : k < k' := by
  cases h with
  | inr h =>
    cases h with
    | inr h => exact h

section Shapes

variable {v : Value}

/-- A value of a pod type. -/
def IsPod (p : Pod) (v : Value) : Prop := ∃ s, v = .scalar s ∧ s.HasPod p

theorem exists_string (h : IsPod .string v) : ∃ s, v = stringValue s := by
  obtain ⟨s, rfl, hs⟩ := h
  cases s with
  | string s => exact ⟨s, rfl⟩
  | int n => cases hs
  | bool b => cases hs

theorem exists_bool (h : IsPod .bool v) : ∃ b, v = .scalar (.bool b) := by
  obtain ⟨s, rfl, hs⟩ := h
  cases s with
  | bool b => exact ⟨b, rfl⟩
  | int n => cases hs
  | string s => cases hs

theorem exists_number {α : Type} {p : Pod} (hp : p.isInteger = true) {f : α → Int}
    (hf : ∀ n, p.fits n = true → ∃ a, f a = n) (h : IsPod p v) : ∃ a, v = intValue (f a) := by
  obtain ⟨s, rfl, hs⟩ := h
  cases s with
  | bool b => cases p <;> first | exact hs.elim | cases hp
  | string s => cases p <;> first | exact hs.elim | cases hp
  | int n =>
    have hwrap : p.wrap n = n := by cases p <;> first | exact hs | cases hp
    obtain ⟨a, rfl⟩ := hf n ((Pod.wrap_eq_self_iff hp).mp hwrap)
    exact ⟨a, rfl⟩

theorem exists_numbers {α : Type} {p : Pod} (hp : p.isInteger = true) {f : α → Int}
    (hf : ∀ n, p.fits n = true → ∃ a, f a = n) (h : ∃ vs, v = .vector vs ∧ ∀ x ∈ vs, IsPod p x) :
    ∃ l : List α, v = .vector (l.map fun a => intValue (f a)) := by
  obtain ⟨vs, rfl, hvs⟩ := h
  have hvs' : vs ∈ Set.range (List.map fun a => intValue (f a)) := by
    rw [Set.range_list_map]
    intro x hx
    obtain ⟨a, rfl⟩ := exists_number hp hf (hvs x hx)
    exact ⟨a, rfl⟩
  obtain ⟨l, rfl⟩ := hvs'
  exact ⟨l, rfl⟩

theorem exists_map (h : ∃ es, v = .map es ∧ SortedMap.Sorted es ∧ ∀ e ∈ es, e.1.HasPod .string ∧ IsPod .string e.2) :
    ∃ m, v = mapValue m := by
  obtain ⟨es, rfl, hsorted, hes⟩ := h
  have hes' : es ∈ Set.range (List.map fun e : String × String => (Scalar.string e.1, stringValue e.2)) := by
    rw [Set.range_list_map]
    intro e he
    obtain ⟨hkey, hvalue⟩ := hes e he
    obtain ⟨k, x⟩ := e
    obtain ⟨s, rfl⟩ := exists_string hvalue
    cases k with
    | string k => exact ⟨(k, s), rfl⟩
    | int n => cases hkey
    | bool b => cases hkey
  obtain ⟨l, rfl⟩ := hes'
  have hl : SortedMap.Sorted l := (List.pairwise_map.mp hsorted).imp lt_of_string_lt
  exact ⟨SortedMap.toFinMap l, by rw [mapValue, SortedMap.ofFinMap_toFinMap hl]⟩

end Shapes

theorem exists_uint16 {n : Int} (h : Pod.uint16.fits n = true) : ∃ a : UInt16, (a.toNat : Int) = n := by
  obtain ⟨hlow, hhigh⟩ : 0 ≤ n ∧ n ≤ 65535 := Pod.fits_iff.mp h
  exact ⟨.ofNat n.toNat, by rw [UInt16.toNat_ofNat_of_lt' (by simp only [UInt16.size]; omega)]; omega⟩

theorem exists_uint32 {n : Int} (h : Pod.uint32.fits n = true) : ∃ a : UInt32, (a.toNat : Int) = n := by
  obtain ⟨hlow, hhigh⟩ : 0 ≤ n ∧ n ≤ 4294967295 := Pod.fits_iff.mp h
  exact ⟨.ofNat n.toNat, by rw [UInt32.toNat_ofNat_of_lt' (by simp only [UInt32.size]; omega)]; omega⟩

theorem exists_uint64 {n : Int} (h : Pod.uint64.fits n = true) : ∃ a : UInt64, (a.toNat : Int) = n := by
  obtain ⟨hlow, hhigh⟩ : 0 ≤ n ∧ n ≤ 18446744073709551615 := Pod.fits_iff.mp h
  exact ⟨.ofNat n.toNat, by rw [UInt64.toNat_ofNat_of_lt' (by simp only [UInt64.size]; omega)]; omega⟩

theorem exists_int32 {n : Int} (h : Pod.int.fits n = true) : ∃ a : Int32, a.toInt = n := by
  obtain ⟨hlow, hhigh⟩ : -2147483648 ≤ n ∧ n ≤ 2147483647 := Pod.fits_iff.mp h
  exact ⟨.ofInt n, Int32.toInt_ofInt_of_le (by omega) (by omega)⟩

theorem exists_int64 {n : Int} (h : Pod.int64.fits n = true) : ∃ a : Int64, a.toInt = n := by
  obtain ⟨hlow, hhigh⟩ : -9223372036854775808 ≤ n ∧ n ≤ 9223372036854775807 := Pod.fits_iff.mp h
  exact ⟨.ofInt n, Int64.toInt_ofInt_of_le (by omega) (by omega)⟩

theorem exists_protocol {item : Nat} (h : item < 3) : ∃ p : ServerProtocol, p.item = item := by
  match item, h with
  | 0, _ => exact ⟨.http, rfl⟩
  | 1, _ => exact ⟨.thrift, rfl⟩
  | 2, _ => exact ⟨.redis, rfl⟩

theorem exists_status {item : Nat} (h : item < 2) : ∃ p : ServerStatus, p.item = item := by
  match item, h with
  | 0, _ => exact ⟨.available, rfl⟩
  | 1, _ => exact ⟨.unavailable, rfl⟩

/-- Every value of the class is that of a server. -/
theorem Server.exists_toValue {v : Value} (h : Typed serviceRouterEntity 1 "Server" v) : ∃ s : Server, s.toValue = v := by
  obtain ⟨c, vs, hc, rfl, hvs⟩ := h
  obtain rfl : serverDecl = c := Option.some.inj hc
  simp only [serverDecl, List.forall₂_cons_left_iff, List.forall₂_nil_left_iff] at hvs
  obtain ⟨host, _, hhost, ⟨port, _, hport, ⟨serviceName, _, hserviceName, ⟨protocol, _, hprotocol, ⟨status, _, hstatus,
    ⟨idc, _, hidc, ⟨dc, _, hdc, ⟨updateTime, _, hupdateTime, ⟨weight, _, hweight, ⟨hostLong, _, hhostLong,
    ⟨shardList, _, hshardList, ⟨available, _, havailable, ⟨follower, _, hfollower, ⟨followerAvailable, _, hfollowerAvailable,
    ⟨otherSettings, _, hotherSettings, ⟨isEdgeNode, _, hisEdgeNode, ⟨partitionList, _, hpartitionList, rfl, rfl⟩, rfl⟩, rfl⟩,
    rfl⟩, rfl⟩, rfl⟩, rfl⟩, rfl⟩, rfl⟩, rfl⟩, rfl⟩, rfl⟩, rfl⟩, rfl⟩, rfl⟩, rfl⟩, rfl⟩ := hvs
  obtain ⟨host, rfl⟩ := exists_string hhost
  obtain ⟨port, rfl⟩ := exists_number rfl (fun _ => exists_uint16) hport
  obtain ⟨serviceName, rfl⟩ := exists_string hserviceName
  obtain ⟨protocol, hprotocol, rfl⟩ := hprotocol
  obtain ⟨protocol, rfl⟩ := exists_protocol hprotocol
  obtain ⟨status, hstatus, rfl⟩ := hstatus
  obtain ⟨status, rfl⟩ := exists_status hstatus
  obtain ⟨idc, rfl⟩ := exists_string hidc
  obtain ⟨dc, rfl⟩ := exists_string hdc
  obtain ⟨updateTime, rfl⟩ := exists_number rfl (fun _ => exists_uint64) hupdateTime
  obtain ⟨weight, rfl⟩ := exists_number rfl (fun _ => exists_int32) hweight
  obtain ⟨hostLong, rfl⟩ := exists_number rfl (fun _ => exists_uint32) hhostLong
  obtain ⟨shardList, rfl⟩ := exists_numbers rfl (fun _ => exists_uint32) hshardList
  obtain ⟨available, rfl⟩ := exists_numbers rfl (fun _ => exists_uint32) havailable
  obtain ⟨follower, rfl⟩ := exists_numbers rfl (fun _ => exists_uint32) hfollower
  obtain ⟨followerAvailable, rfl⟩ := exists_numbers rfl (fun _ => exists_uint32) hfollowerAvailable
  obtain ⟨otherSettings, rfl⟩ := exists_map hotherSettings
  obtain ⟨isEdgeNode, rfl⟩ := exists_bool hisEdgeNode
  obtain ⟨partitionList, rfl⟩ := exists_numbers rfl (fun _ => exists_int64) hpartitionList
  exact ⟨⟨host, port, serviceName, protocol, status, idc, dc, updateTime, weight, hostLong, shardList, available, follower,
    followerAvailable, otherSettings, isEdgeNode, partitionList⟩, rfl⟩

/-! ## What is decoded -/

/-- What the statements of the members give is what the server has. -/
theorem Server.members_of_deserialize {t s : Server} {data : List (Scalar × BuildTools.Dynamic)}
    (h : t.deserialize (.object data) = some s) :
    List.Forall₂ (fun m v => ∃ stmt, deserializeMember serviceRouterEntity.known m = .ok stmt ∧
      serviceRouterProgram.runDesCode (serviceRouterProgram.deserialize (fun _ => t.member) 0) data (t.member m.name)
        ⟨m.key, m.name, m.isoptional, stmt⟩ = some v) serverDecl.members s.memberValues := by
  obtain ⟨v, hv, hof⟩ := Option.bind_eq_some_iff.mp h
  have hc : serviceRouterEntity.findClass "Server" = some serverDecl := rfl
  obtain ⟨vs, rfl, hvs⟩ := BuildTools.members_of_deserialize generate_serviceRouterEntity hc hv
  -- the old values are those of a server, and nothing of a class is inside
  have hold : ∀ m ∈ serverDecl.members,
      TypedMember serviceRouterEntity (Typed serviceRouterEntity 0) m.type (t.member m.name) := by
    intro m hm
    obtain ⟨c, ws, hc', hws, hrel⟩ := t.typed
    obtain rfl : serverDecl = c := Option.some.inj (hc.symm.trans hc')
    obtain rfl : t.memberValues = ws := Value.object.inj hws
    exact rel_lookup hrel (by decide) hm _
  have htyped : Typed serviceRouterEntity 1 "Server" (.object vs) := by
    refine ⟨serverDecl, vs, hc, rfl, ?_⟩
    refine ((List.forall₂_and_left _ _).mpr ⟨hold, hvs⟩).imp fun m v hmv => ?_
    obtain ⟨hm, stmt, hstmt, hrun⟩ := hmv
    exact typed_of_runDesCode generate_serviceRouterEntity (fun cls d v hd => by cases hd) hstmt hm hrun
  obtain ⟨s', hs'⟩ := Server.exists_toValue htyped
  rw [← hs', Server.ofValue_toValue] at hof
  obtain rfl : s' = s := Option.some.inj hof
  obtain rfl : s'.memberValues = vs := Value.object.inj hs'
  exact hvs

/-- A server that is decoded has the numbers of the object iff they fit its members. -/
theorem Server.deserialize_exact_iff (t s : Server) (data : List (Scalar × BuildTools.Dynamic))
    (h : t.deserialize (.object data) = some s) :
    List.Forall₂ (MemberExact data) serverDecl.members s.memberValues ↔
      serverDecl.members.all (memberFits data) = true := by
  rw [List.all_eq_true]
  refine forall₂_iff_forall ((Server.members_of_deserialize h).imp fun m v hmv => ?_)
  obtain ⟨stmt, hstmt, hrun⟩ := hmv
  exact memberExact_iff hstmt hrun

/-- The object of a server on this port. -/
def objectWithPort (port : Int) : List (Scalar × BuildTools.Dynamic) :=
  [(.string "Host", .scalar (.string "10.0.0.1")), (.string "Port", .scalar (.int port)),
    (.string "ServiceName", .scalar (.string "predictor")), (.string "Protocol", .scalar (.string "thrift")),
    (.string "Status", .scalar (.string "available")), (.string "UpdateTime", .scalar (.int 0)),
    (.string "Weight", .scalar (.int 1)), (.string "ShardList", .array [.scalar (.int 0), .scalar (.int 7)]),
    (.string "OtherSettings", .object [])]

theorem deserialize_exact_port :
    ∃ s, ({} : Server).deserialize (.object (objectWithPort 9000)) = some s ∧
      List.Forall₂ (MemberExact (objectWithPort 9000)) serverDecl.members s.memberValues := by
  have hsome : (({} : Server).deserialize (.object (objectWithPort 9000))).isSome = true := by decide +kernel
  obtain ⟨s, hs⟩ := Option.isSome_iff_exists.mp hsome
  exact ⟨s, hs, (Server.deserialize_exact_iff {} s (objectWithPort 9000) hs).mpr (by decide +kernel)⟩

/-- The port is beyond 16 bits, and the server is discovered on port 80. -/
theorem a_large_port_wraps :
    ∃ s, ({} : Server).deserialize (.object (objectWithPort 65616)) = some s ∧ s.port = 80 ∧
      ¬ List.Forall₂ (MemberExact (objectWithPort 65616)) serverDecl.members s.memberValues := by
  have hport : (({} : Server).deserialize (.object (objectWithPort 65616))).map Server.port = some 80 := by
    decide +kernel
  obtain ⟨s, hs, hport⟩ := Option.map_eq_some_iff.mp hport
  refine ⟨s, hs, hport, fun h => ?_⟩
  obtain ⟨-, h⟩ := List.forall₂_cons.mp h
  obtain ⟨hexact, -⟩ := List.forall₂_cons.mp h
  have hvalue := hexact.scalar .uint16 65616 rfl rfl (by rfl)
  rw [hport] at hvalue
  cases hvalue

end PredictorService.ServiceRouter
