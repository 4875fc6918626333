/-
  PredictorService.ServiceRouter.FileRegistry — servers from a static file
  (service_router/registry.cc: `FileRegistry` and its `FileServerReader`).

  A line of the file is `protocol,ip:port,idc,weight`. The reader removes all blanks from a
  line, skips empty lines and comments, and drops a line that it cannot read. `Describes`
  says which lines name a server, and which one, without the functions that read it:
  - `parseServerFromString_iff`: the reader takes exactly these lines.
  - `getServers_reads`: the servers of a file are those of its lines, in order, one for each
    line that names one (`Reads`).

  A file is its bytes, a character for each. `folly::split` keeps empty fields, as `splitOn`
  does. What the process sees of a file is its modification time in whole seconds (`stat`)
  and, when it can be opened, its content.
-/

import Mathlib.Data.List.TakeWhile
import PredictorService.Common.Util
import PredictorService.ServiceRouter.Entity

namespace PredictorService.ServiceRouter.FileRegistry

open PredictorService.Common

/-! ## A line -/

def stringToServerProtocol (name : List Char) : Option ServerProtocol :=
  if name = "http".toList then some .http
  else if name = "thrift".toList then some .thrift
  else if name = "redis".toList then some .redis
  else none

def splitIpPort (str : List Char) : Option (List Char × UInt16) :=
  if str = [] then none
  else
    match str.splitOn ':' with
    | [ip, port] => (follyToUInt16 port).map fun port => (ip, port)
    | _ => none

def toWeight (field : List Char) : Int32 :=
  match follyToInt field with
  | none => 1
  | some weight => Int32.ofInt weight

/-- `none` when it returns false. -/
def parseServerFromString (serviceName : String) (line : List Char) : Option Server :=
  if line = [] then none
  else
    match line.splitOn ',' with
    | [protocol, address, idc, weight] =>
      match splitIpPort address with
      | none => none
      | some (ip, port) =>
        match stringToServerProtocol protocol with
        | none => none
        | some protocol =>
          some
            { serviceName
              host := String.ofList ip
              port
              idc := String.ofList idc
              protocol
              status := .available
              updateTime := 0
              weight := toWeight weight }
    | _ => none

/-! ## The file -/

/-- What is left of an open `std::ifstream`. -/
structure Input where
  rest : List Char
  eof : Bool := false
  deriving DecidableEq, Repr

/-- The end of the file is noticed when a line runs into it. -/
def getline (input : Input) : List Char × Input :=
  match input.rest.dropWhile (· ≠ '\n') with
  | [] => (input.rest, ⟨[], true⟩)
  | _ :: rest => (input.rest.takeWhile (· ≠ '\n'), ⟨rest, false⟩)

/-- The loop over the lines. -/
def readServers (serviceName : String) : Nat → Input → List Server → List Server
  | 0, _, serverList => serverList
  | fuel + 1, input, serverList =>
    if input.eof then serverList
    else
      let (line, input) := getline input
      let line := line.filter (fun c => !isspace c)
      if line = [] ∨ line.head? = some '#' then readServers serviceName fuel input serverList
      else
        match parseServerFromString serviceName line with
        | none => readServers serviceName fuel input serverList
        | some server => readServers serviceName fuel input (serverList ++ [server])

structure File where
  content : List Char
  /-- `st_mtime`, in seconds. -/
  mtime : Int
  deriving DecidableEq, Repr

structure FileServerReader where
  serviceName : String
  filePath : String
  lastModifiedTime : Int := 0
  deriving DecidableEq, Repr

/-- `none` is a file that is not there. -/
def FileServerReader.checkModified (reader : FileServerReader) (file : Option File) : Bool × FileServerReader :=
  match file with
  | none => (false, reader)
  | some file =>
    if file.mtime ≠ reader.lastModifiedTime then (true, { reader with lastModifiedTime := file.mtime })
    else (false, reader)

/-- What it returns, and the list after it. `opens` says whether the file can be opened. Each
    round of the loop but the last takes a newline away, so the length of the file bounds
    them. -/
def FileServerReader.getServers (reader : FileServerReader) (file : Option File) (opens : Bool) (serverList : List Server) :
    Bool × List Server × FileServerReader :=
  match reader.checkModified file with
  | (false, reader) => (false, serverList, reader)
  | (true, reader) =>
    match opens, file with
    | true, some file =>
      (true, readServers reader.serviceName (file.content.length + 1) ⟨file.content, false⟩ serverList, reader)
    | _, _ => (false, serverList, reader)

/-! ## Which lines name a server -/

/-- A decimal integer, with or without a sign. -/
def DecimalInt (field : List Char) (n : Int) : Prop :=
  ∃ ds, ds ≠ [] ∧ (∀ c ∈ ds, c.isDigit) ∧
    ((field = ds ∨ field = '+' :: ds) ∧ n = digitsToNat ds ∨ field = '-' :: ds ∧ n = -digitsToNat ds)

/-- A decimal number from 0 to 65535. -/
def DecimalPort (field : List Char) (n : Nat) : Prop :=
  field ≠ [] ∧ (∀ c ∈ field, c.isDigit) ∧ n = digitsToNat field ∧ n ≤ 65535

/-- The fields of a line, the second one in its two parts. -/
structure Fields where
  protocol : List Char
  ip : List Char
  port : List Char
  idc : List Char
  weight : List Char

def Fields.text (f : Fields) : List Char :=
  f.protocol ++ ',' :: (f.ip ++ ':' :: f.port ++ ',' :: (f.idc ++ ',' :: f.weight))

/-- The separators stand between the fields and nowhere else. -/
structure Fields.Separated (f : Fields) : Prop where
  protocol : ',' ∉ f.protocol
  ip : ',' ∉ f.ip ∧ ':' ∉ f.ip
  port : ',' ∉ f.port ∧ ':' ∉ f.port
  idc : ',' ∉ f.idc
  weight : ',' ∉ f.weight

/-- The weight is the field where that is a 32 bit integer, and 1 otherwise. -/
def IsWeight (field : List Char) (weight : Int32) : Prop :=
  DecimalInt field weight.toInt ∨ weight = 1 ∧ ¬ ∃ n, DecimalInt field n ∧ -2147483648 ≤ n ∧ n < 2147483648

/-- A text without blanks names the server. -/
structure Names (serviceName : String) (text : List Char) (server : Server) : Prop where
  fields : ∃ f : Fields, f.text = text ∧ f.Separated ∧
    toStringServerProtocol server.protocol = String.ofList f.protocol ∧ server.host = String.ofList f.ip ∧
    DecimalPort f.port server.port.toNat ∧ server.idc = String.ofList f.idc ∧ IsWeight f.weight server.weight
  other : server =
    { serviceName, host := server.host, port := server.port, idc := server.idc, protocol := server.protocol,
      weight := server.weight, status := .available, updateTime := 0 }

/-- A line names the server: it does so once its blanks are removed, and is no comment. -/
def Describes (serviceName : String) (line : List Char) (server : Server) : Prop :=
  let text := line.filter (fun c => !isspace c)
  text ≠ [] ∧ text.head? ≠ some '#' ∧ Names serviceName text server

/-- The servers that the lines name, in order; a line that names none is skipped. -/
inductive Reads (serviceName : String) : List (List Char) → List Server → Prop where
  | nil : Reads serviceName [] []
  | names {line : List Char} {server : Server} {lines : List (List Char)} {servers : List Server} :
      Describes serviceName line server → Reads serviceName lines servers →
      Reads serviceName (line :: lines) (server :: servers)
  | skips {line : List Char} {lines : List (List Char)} {servers : List Server} :
      (¬ ∃ server, Describes serviceName line server) → Reads serviceName lines servers →
      Reads serviceName (line :: lines) servers

/-! ## Fields -/

/-- The pieces of a split are those lists without the separator that make up the whole. -/
theorem splitOn_eq_iff {x : Char} {l : List Char} {pieces : List (List Char)} :
    l.splitOn x = pieces ↔ pieces ≠ [] ∧ (∀ p ∈ pieces, x ∉ p) ∧ [x].intercalate pieces = l := by
  constructor
  · rintro rfl
    refine ⟨List.splitOn_ne_nil x l, ?_, List.intercalate_splitOn x⟩
    induction l with
    | nil => simp
    | cons c l ih =>
      rw [List.splitOn_cons_eq_if_modifyHead]
      split
      · simpa using ih
      · rename_i hc
        obtain ⟨p, ps, hps⟩ := List.exists_cons_of_ne_nil (List.splitOn_ne_nil x l)
        rw [hps] at ih ⊢
        simp only [List.modifyHead_cons, List.mem_cons, forall_eq_or_imp, not_or] at ih ⊢
        exact ⟨⟨fun heq => hc (by simp [heq]), ih.1⟩, ih.2⟩
  · rintro ⟨hne, hmem, rfl⟩
    exact List.splitOn_intercalate x hmem hne

/-- No character is a blank. -/
def Unblank (field : List Char) : Prop := ∀ c ∈ field, isspace c = false

theorem Unblank.dropWhile {field : List Char} (h : Unblank field) : field.dropWhile isspace = field := by
  cases field with
  | nil => rfl
  | cons c cs => rw [List.dropWhile_cons, h c List.mem_cons_self]; rfl

/-- Without blanks there is nothing after the digits. -/
theorem digits_only {digits : List Char} (h : Unblank digits) :
    (digits.drop (digits.takeWhile Char.isDigit).length).all isspace = true ↔ ∀ c ∈ digits, c.isDigit = true := by
  constructor
  · intro hall
    have hdrop : digits.drop (digits.takeWhile Char.isDigit).length = [] := by
      rw [List.eq_nil_iff_forall_not_mem]
      intro c hc
      have hspace := List.all_eq_true.mp hall c hc
      rw [h c (List.mem_of_mem_drop hc)] at hspace
      cases hspace
    have htake : digits.takeWhile Char.isDigit = digits :=
      (List.takeWhile_prefix Char.isDigit).eq_of_length_le (List.drop_eq_nil_iff.mp hdrop)
    exact List.takeWhile_eq_self_iff.mp htake
  · intro hall
    rw [List.takeWhile_eq_self_iff.mpr hall, List.drop_length]
    rfl

theorem follyToUInt16_iff {field : List Char} (h : Unblank field) {n : UInt16} :
    follyToUInt16 field = some n ↔ DecimalPort field n.toNat := by
  have hdigits := digits_only h
  simp only [follyToUInt16, h.dropWhile]
  constructor
  · intro hsome
    split at hsome
    · cases hsome
    rename_i hok
    simp only [not_or, Bool.not_eq_true', Bool.not_eq_false, not_lt] at hok
    obtain ⟨hne, hall, hle⟩ := hok
    have hds := hdigits.mp hall
    rw [List.takeWhile_eq_self_iff.mpr hds] at hne hle hsome
    refine ⟨hne, hds, ?_, ?_⟩
    · rw [← Option.some.inj hsome, UInt16.toNat_ofNat']
      exact Nat.mod_eq_of_lt (by omega)
    · have hlt := n.toNat_lt
      omega
  · rintro ⟨hne, hds, hn, hle⟩
    rw [if_neg]
    · rw [List.takeWhile_eq_self_iff.mpr hds, ← hn, UInt16.ofNat_toNat]
    · rw [hdigits.mpr hds, List.takeWhile_eq_self_iff.mpr hds, ← hn]
      rintro (hnil | hblank | hlarge)
      · exact hne hnil
      · cases hblank
      · omega

/-- The end of `folly::to<int>`, over what a sign makes of the digits. -/
theorem signed_iff {digits : List Char} (h : Unblank digits) (value : Nat → Int) {n : Int} :
    (if digits.takeWhile Char.isDigit = [] ∨ !(digits.drop (digits.takeWhile Char.isDigit).length).all isspace ∨
          value (digitsToNat (digits.takeWhile Char.isDigit)) < -2 ^ 31 ∨
          2 ^ 31 ≤ value (digitsToNat (digits.takeWhile Char.isDigit)) then none
      else some (value (digitsToNat (digits.takeWhile Char.isDigit)))) = some n ↔
    digits ≠ [] ∧ (∀ c ∈ digits, c.isDigit = true) ∧ n = value (digitsToNat digits) ∧ -2147483648 ≤ n ∧ n < 2147483648 := by
  have hdigits := digits_only h
  constructor
  · intro hsome
    split at hsome
    · cases hsome
    rename_i hok
    simp only [not_or, Bool.not_eq_true', Bool.not_eq_false, not_lt, not_le] at hok
    obtain ⟨hne, hall, hlow, hhigh⟩ := hok
    have hds := hdigits.mp hall
    rw [List.takeWhile_eq_self_iff.mpr hds] at hne hlow hhigh hsome
    obtain rfl := Option.some.inj hsome
    exact ⟨hne, hds, rfl, by omega, by omega⟩
  · rintro ⟨hne, hds, rfl, hlow, hhigh⟩
    rw [if_neg]
    · rw [List.takeWhile_eq_self_iff.mpr hds]
    · rw [hdigits.mpr hds, List.takeWhile_eq_self_iff.mpr hds]
      rintro (hnil | hblank | hless | hmore)
      · exact hne hnil
      · cases hblank
      · omega
      · omega

theorem decimalInt_minus {ds : List Char} {n : Int} :
    DecimalInt ('-' :: ds) n ↔ ds ≠ [] ∧ (∀ c ∈ ds, c.isDigit = true) ∧ n = -digitsToNat ds := by
  constructor
  · rintro ⟨ds', hne, hdigits, ⟨rfl | heq, -⟩ | ⟨heq, rfl⟩⟩
    · exact absurd (hdigits '-' List.mem_cons_self) (by decide)
    · cases heq
    · cases heq
      exact ⟨hne, hdigits, rfl⟩
  · rintro ⟨hne, hds, rfl⟩
    exact ⟨ds, hne, hds, .inr ⟨rfl, rfl⟩⟩

theorem decimalInt_plus {ds : List Char} {n : Int} :
    DecimalInt ('+' :: ds) n ↔ ds ≠ [] ∧ (∀ c ∈ ds, c.isDigit = true) ∧ n = digitsToNat ds := by
  constructor
  · rintro ⟨ds', hne, hdigits, ⟨rfl | heq, rfl⟩ | ⟨heq, -⟩⟩
    · exact absurd (hdigits '+' List.mem_cons_self) (by decide)
    · cases heq
      exact ⟨hne, hdigits, rfl⟩
    · cases heq
  · rintro ⟨hne, hds, rfl⟩
    exact ⟨ds, hne, hds, .inl ⟨.inr rfl, rfl⟩⟩

theorem decimalInt_unsigned {field : List Char} (hminus : field.head? ≠ some '-') (hplus : field.head? ≠ some '+') {n : Int} :
    DecimalInt field n ↔ field ≠ [] ∧ (∀ c ∈ field, c.isDigit = true) ∧ n = digitsToNat field := by
  constructor
  · rintro ⟨ds, hne, hds, ⟨rfl | rfl, rfl⟩ | ⟨rfl, -⟩⟩
    · exact ⟨hne, hds, rfl⟩
    · exact absurd rfl hplus
    · exact absurd rfl hminus
  · rintro ⟨hne, hds, rfl⟩
    exact ⟨field, hne, hds, .inl ⟨.inl rfl, rfl⟩⟩

/-- `folly::tryTo` accepts exactly the decimal integers in range. -/
theorem follyToInt_iff {field : List Char} (h : Unblank field) {n : Int} :
    follyToInt field = some n ↔ DecimalInt field n ∧ -2147483648 ≤ n ∧ n < 2147483648 := by
  simp only [follyToInt, h.dropWhile]
  by_cases hminus : field.head? = some '-'
  · obtain ⟨ds, rfl⟩ := List.head?_eq_some_iff.mp hminus
    have hds : Unblank ds := fun c hc => h c (List.mem_cons_of_mem _ hc)
    simp only [List.head?_cons, List.tail_cons, true_or, if_true]
    rw [signed_iff hds (fun m => -(m : Int)), decimalInt_minus]
    tauto
  · by_cases hplus : field.head? = some '+'
    · obtain ⟨ds, rfl⟩ := List.head?_eq_some_iff.mp hplus
      have hds : Unblank ds := fun c hc => h c (List.mem_cons_of_mem _ hc)
      simp only [List.head?_cons, List.tail_cons, or_true, if_true, show ¬ some '+' = some '-' by decide, if_false]
      rw [signed_iff hds (fun m => (m : Int)), decimalInt_plus]
      tauto
    · simp only [hminus, hplus, or_self, if_false]
      rw [signed_iff h (fun m => (m : Int)), decimalInt_unsigned hminus hplus]
      tauto

theorem stringToServerProtocol_iff {name : List Char} {protocol : ServerProtocol} :
    stringToServerProtocol name = some protocol ↔ toStringServerProtocol protocol = String.ofList name := by
  constructor
  · intro h
    unfold stringToServerProtocol at h
    split at h
    · rename_i heq
      cases h
      rw [heq, String.ofList_toList]
      rfl
    · split at h
      · rename_i heq
        cases h
        rw [heq, String.ofList_toList]
        rfl
      · split at h
        · rename_i heq
          cases h
          rw [heq, String.ofList_toList]
          rfl
        · cases h
  · intro h
    have hname : name = (toStringServerProtocol protocol).toList := by rw [h, String.toList_ofList]
    rw [hname]
    cases protocol <;> decide

/-- The second field. -/
theorem splitIpPort_iff {address ip : List Char} (h : Unblank address) {port : UInt16} :
    splitIpPort address = some (ip, port) ↔
      ∃ field, address = ip ++ ':' :: field ∧ ':' ∉ ip ∧ ':' ∉ field ∧ DecimalPort field port.toNat := by
  unfold splitIpPort
  constructor
  · intro hsome
    split at hsome
    · cases hsome
    split at hsome
    · rename_i ip' field hsplit
      obtain ⟨p, hp, heq⟩ := Option.map_eq_some_iff.mp hsome
      cases heq
      obtain ⟨-, hmem, htext⟩ := splitOn_eq_iff.mp hsplit
      have htext' : address = ip ++ ':' :: field := by simpa using htext.symm
      have hfield : Unblank field := fun c hc => h c (by rw [htext']; simp [hc])
      exact ⟨field, htext', hmem ip (by simp), hmem field (by simp), (follyToUInt16_iff hfield).mp hp⟩
    · cases hsome
  · rintro ⟨field, rfl, hip, hfield, hport⟩
    have hsplit : (ip ++ ':' :: field).splitOn ':' = [ip, field] :=
      splitOn_eq_iff.mpr ⟨by simp, by simp [hip, hfield], by simp⟩
    have hub : Unblank field := fun c hc => h c (by simp [hc])
    rw [if_neg (by simp), hsplit]
    simp only [(follyToUInt16_iff hub).mpr hport, Option.map_some]

theorem toWeight_iff {field : List Char} (h : Unblank field) {weight : Int32} :
    toWeight field = weight ↔ IsWeight field weight := by
  have hlow := weight.le_toInt
  have hhigh := weight.toInt_lt
  unfold toWeight
  cases hint : follyToInt field with
  | none =>
    have hno : ¬ ∃ n, DecimalInt field n ∧ -2147483648 ≤ n ∧ n < 2147483648 := by
      rintro ⟨n, hn⟩
      rw [(follyToInt_iff h).mpr hn] at hint
      cases hint
    constructor
    · rintro rfl
      exact .inr ⟨rfl, hno⟩
    · rintro (hdec | ⟨rfl, -⟩)
      · exact absurd ⟨weight.toInt, hdec, by omega, by omega⟩ hno
      · rfl
  | some n =>
    have hn := (follyToInt_iff h).mp hint
    constructor
    · rintro rfl
      left
      rw [Int32.toInt_ofInt_of_le (by omega) (by omega)]
      exact hn.1
    · rintro (hdec | ⟨-, hno⟩)
      · have hsame := (follyToInt_iff h).mpr ⟨hdec, by omega, by omega⟩
        rw [hint] at hsame
        show Int32.ofInt n = weight
        rw [Option.some.inj hsame, Int32.ofInt_toInt]
      · exact absurd ⟨n, hn⟩ hno

/-! ## Lines -/

/-- The reader takes exactly the texts that name a server. -/
theorem parseServerFromString_iff {serviceName : String} {text : List Char} (h : Unblank text) {server : Server} :
    parseServerFromString serviceName text = some server ↔ Names serviceName text server := by
  constructor
  · intro hsome
    unfold parseServerFromString at hsome
    split at hsome
    · cases hsome
    split at hsome
    · rename_i protocol address idc weight hsplit
      obtain ⟨-, hmem, htext⟩ := splitOn_eq_iff.mp hsplit
      have htext' : text = protocol ++ ',' :: (address ++ ',' :: (idc ++ ',' :: weight)) := by simpa using htext.symm
      have haddress : Unblank address := fun c hc => h c (by rw [htext']; simp [hc])
      have hweight : Unblank weight := fun c hc => h c (by rw [htext']; simp [hc])
      split at hsome
      · cases hsome
      rename_i ip port hipport
      obtain ⟨field, rfl, hip, hfield, hport⟩ := (splitIpPort_iff haddress).mp hipport
      split at hsome
      · cases hsome
      rename_i p hp
      cases hsome
      have haddr := hmem (ip ++ ':' :: field) (by simp)
      simp only [List.mem_append, List.mem_cons, not_or] at haddr
      refine ⟨⟨⟨protocol, ip, field, idc, weight⟩, ?_, ⟨hmem protocol (by simp), ⟨haddr.1, hip⟩,
        ⟨haddr.2.2, hfield⟩, hmem idc (by simp), hmem weight (by simp)⟩, stringToServerProtocol_iff.mp hp, rfl, hport, rfl,
        (toWeight_iff hweight).mp rfl⟩, rfl⟩
      rw [htext', Fields.text]
    · cases hsome
  · rintro ⟨⟨f, rfl, hsep, hprotocol, hhost, hport, hidc, hweight⟩, hother⟩
    have haddress : Unblank (f.ip ++ ':' :: f.port) := fun c hc => h c (by
      simp only [Fields.text, List.mem_append, List.mem_cons] at hc ⊢
      tauto)
    have hub : Unblank f.weight := fun c hc => h c (by simp [Fields.text, hc])
    have hsplit : f.text.splitOn ',' = [f.protocol, f.ip ++ ':' :: f.port, f.idc, f.weight] := by
      refine splitOn_eq_iff.mpr ⟨by simp, ?_, by simp [Fields.text]⟩
      simp [hsep.protocol, hsep.ip.1, hsep.port.1, hsep.idc, hsep.weight]
    have hipport : splitIpPort (f.ip ++ ':' :: f.port) = some (f.ip, server.port) :=
      (splitIpPort_iff haddress).mpr ⟨f.port, rfl, hsep.ip.2, hsep.port.2, hport⟩
    unfold parseServerFromString
    rw [if_neg (by simp [Fields.text]), hsplit]
    simp only [hipport, stringToServerProtocol_iff.mpr hprotocol, (toWeight_iff hub).mpr hweight]
    rw [hother, hhost, hidc]

/-- What a round of the loop appends for a line. -/
def lineServer (serviceName : String) (line : List Char) : Option Server :=
  let line := line.filter (fun c => !isspace c)
  if line = [] ∨ line.head? = some '#' then none else parseServerFromString serviceName line

theorem lineServer_iff {serviceName : String} {line : List Char} {server : Server} :
    lineServer serviceName line = some server ↔ Describes serviceName line server := by
  have hub : Unblank (line.filter (fun c => !isspace c)) := fun c hc => by
    simpa using (List.mem_filter.mp hc).2
  unfold lineServer Describes
  simp only
  split
  · rename_i hskip
    refine ⟨nofun, fun ⟨hne, hhash, _⟩ => ?_⟩
    rcases hskip with hnil | hcomment
    · exact absurd hnil hne
    · exact absurd hcomment hhash
  · rename_i hkeep
    rw [not_or] at hkeep
    rw [parseServerFromString_iff hub]
    exact ⟨fun h => ⟨hkeep.1, hkeep.2, h⟩, fun h => h.2.2⟩

theorem describes_unique {serviceName : String} {line : List Char} {server server' : Server}
    (h : Describes serviceName line server) (h' : Describes serviceName line server') : server = server' := by
  rw [← lineServer_iff] at h h'
  exact Option.some.inj (h.symm.trans h')

/-- The lines of a file, one round of the loop for each. -/
theorem getline_splitOn (rest : List Char) :
    rest.splitOn '\n' =
      (getline ⟨rest, false⟩).1 :: if (getline ⟨rest, false⟩).2.eof then [] else (getline ⟨rest, false⟩).2.rest.splitOn '\n' := by
  have happend := @List.takeWhile_append_dropWhile _ (fun c => decide (c ≠ '\n')) rest
  have htake : '\n' ∉ rest.takeWhile (fun c => decide (c ≠ '\n')) := fun hmem => by
    simpa using List.mem_takeWhile_imp hmem
  unfold getline
  cases hdrop : rest.dropWhile (fun c => decide (c ≠ '\n')) with
  | nil =>
    rw [hdrop, List.append_nil] at happend
    rw [happend] at htake
    exact List.splitOn_eq_singleton htake
  | cons c tail =>
    have hc : c = '\n' := by
      have hhead := List.head?_dropWhile_not (fun c => decide (c ≠ '\n')) rest
      rw [hdrop] at hhead
      simpa using hhead
    rw [hdrop, hc] at happend
    have hsplit := List.splitOn_append_cons_self_of_not_mem htake tail
    rwa [happend] at hsplit

theorem getline_rest (rest : List Char) (h : (getline ⟨rest, false⟩).2.eof = false) :
    (getline ⟨rest, false⟩).2.rest.length < rest.length := by
  have happend := @List.takeWhile_append_dropWhile _ (fun c => decide (c ≠ '\n')) rest
  unfold getline at h ⊢
  cases hdrop : rest.dropWhile (fun c => decide (c ≠ '\n')) with
  | nil =>
    rw [hdrop] at h
    cases h
  | cons c tail =>
    rw [hdrop] at happend
    show tail.length < rest.length
    rw [← happend, List.length_append, List.length_cons]
    omega

/-- A loop that has rounds enough appends the servers of the lines. -/
theorem readServers_eq (serviceName : String) (fuel : Nat) (rest : List Char) (serverList : List Server)
    (h : rest.length < fuel) :
    readServers serviceName fuel ⟨rest, false⟩ serverList =
      serverList ++ (rest.splitOn '\n').filterMap (lineServer serviceName) := by
  induction fuel generalizing rest serverList with
  | zero => omega
  | succ fuel ih =>
    -- what the rounds after this one do
    have hnext : ∀ servers, readServers serviceName fuel (getline ⟨rest, false⟩).2 servers =
        servers ++ (if (getline ⟨rest, false⟩).2.eof then []
          else (getline ⟨rest, false⟩).2.rest.splitOn '\n').filterMap (lineServer serviceName) := by
      intro servers
      cases heof : (getline ⟨rest, false⟩).2.eof with
      | true =>
        have hend : readServers serviceName fuel (getline ⟨rest, false⟩).2 servers = servers := by
          cases fuel with
          | zero => rfl
          | succ fuel => rw [readServers, if_pos heof]
        simpa using hend
      | false =>
        have hlen := getline_rest rest heof
        have hinput : (getline ⟨rest, false⟩).2 = ⟨(getline ⟨rest, false⟩).2.rest, false⟩ :=
          congrArg (Input.mk (getline ⟨rest, false⟩).2.rest) heof
        rw [hinput]
        exact ih _ servers (by omega)
    rw [getline_splitOn, List.filterMap_cons]
    unfold readServers
    rw [if_neg Bool.false_ne_true]
    simp only
    by_cases hskip : (getline ⟨rest, false⟩).1.filter (fun c => !isspace c) = [] ∨
        ((getline ⟨rest, false⟩).1.filter (fun c => !isspace c)).head? = some '#'
    · rw [if_pos hskip, hnext, lineServer, if_pos hskip]
    · rw [if_neg hskip]
      have hline : lineServer serviceName (getline ⟨rest, false⟩).1 =
          parseServerFromString serviceName ((getline ⟨rest, false⟩).1.filter (fun c => !isspace c)) := by
        rw [lineServer, if_neg hskip]
      rw [hline]
      cases parseServerFromString serviceName ((getline ⟨rest, false⟩).1.filter (fun c => !isspace c)) with
      | none => simp only [hnext]
      | some server => simp only [hnext, List.append_assoc, List.singleton_append]

theorem reads_filterMap (serviceName : String) (lines : List (List Char)) :
    Reads serviceName lines (lines.filterMap (lineServer serviceName)) := by
  induction lines with
  | nil => exact .nil
  | cons line lines ih =>
    rw [List.filterMap_cons]
    cases hline : lineServer serviceName line with
    | none =>
      refine .skips ?_ ih
      rintro ⟨server, hserver⟩
      rw [lineServer_iff.mpr hserver] at hline
      cases hline
    | some server => exact .names (lineServer_iff.mp hline) ih

/-- A file that counts as modified and opens: the servers of its lines are appended, in
    order, one for each line that names one, and a line names at most one. -/
theorem getServers_reads (reader : FileServerReader) (file : File) (serverList : List Server)
    (hmod : file.mtime ≠ reader.lastModifiedTime) :
    (∃ servers, reader.getServers (some file) true serverList =
        (true, serverList ++ servers, { reader with lastModifiedTime := file.mtime }) ∧
      Reads reader.serviceName (file.content.splitOn '\n') servers) ∧
    ∀ line server server', Describes reader.serviceName line server → Describes reader.serviceName line server' →
      server = server' := by
  refine ⟨⟨_, ?_, reads_filterMap _ _⟩, fun line server server' => describes_unique⟩
  have hcheck : reader.checkModified (some file) = (true, { reader with lastModifiedTime := file.mtime }) := if_pos hmod
  rw [FileServerReader.getServers, hcheck]
  simp only
  rw [readServers_eq _ _ _ _ (Nat.lt_succ_self _)]

def staticReader : FileServerReader := ⟨"ctr", "/data/ctr_static_ip_list", 0⟩

/-- A comment, a server with blanks in its line, a line without a port, and a server whose
    weight is no integer; the last line ends with the file. -/
def staticFile : File :=
  ⟨"# static\nthrift, 10.0.0.1:9000, bj, 20\nthrift,10.0.0.2,bj,1\n\nhttp,10.0.0.3:80,,x".toList, 1600000000⟩

theorem getServers_reads_static :
    (staticReader.getServers (some staticFile) true []).2.1 =
        [{ serviceName := "ctr", host := "10.0.0.1", port := 9000, protocol := .thrift, status := .available, idc := "bj",
           weight := 20 },
         { serviceName := "ctr", host := "10.0.0.3", port := 80, protocol := .http, status := .available }] ∧
      ∃ servers, staticReader.getServers (some staticFile) true [] =
          (true, [] ++ servers, { staticReader with lastModifiedTime := 1600000000 }) ∧
        Reads "ctr" (staticFile.content.splitOn '\n') servers :=
  ⟨by decide +kernel, (getServers_reads staticReader staticFile [] (by decide)).1⟩

end PredictorService.ServiceRouter.FileRegistry
