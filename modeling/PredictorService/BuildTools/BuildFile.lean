/-
  PredictorService.BuildTools.BuildFile — the targets that a BUILD file makes
  (build_tools/typhoon-blade/src/blade/target.py, load_build_files.py).

  A BUILD file is the row of rules that it calls. Each makes a target, whose dependencies
  are written in one of four ways (`unifyDep`) and become keys, and registers it; a
  dependency on a system library registers that as well. What the rule's class adds comes
  last (`PredictorService.BuildTools.Rules`).

  Whether a file can be read does not depend on what has been read before (`Readable`,
  `loadBuildFile_iff`), and what is registered depends only on which have been, not on
  their order (`Sound`).

  A source file of two targets is only warned of (`duplicated_source_action`).
-/

import PredictorService.BuildTools.Rules
import PredictorService.Lib.Loops
import PredictorService.Lib.Normpath

namespace PredictorService.BuildTools

open PredictorService.Lib

/-- The BUILD files, under their directories. -/
abbrev Files := FinMap String (List Rule)

inductive Fatal where
  | notFound (sourceDir : String)
  | fatalError (sourceDir : String)
  | parseError (sourceDir : String)
  | notExist (target : Key)
  /-- The loop has not ended after so many rounds. -/
  | running
  deriving DecidableEq, Repr

namespace LoadTargets

/-! ## Targets -/

def checkFormat (t : String) : Except BuildError Unit :=
  let l := t.toList
  if [[':'], ['#'], ['/', '/'], ['.', '/']].any (·.isPrefixOf l) = false then .error .exit
  else if 1 < l.count ':' then .error .exit
  else .ok ()

/-- `rsplit(':', 1)` of a text with a colon. -/
def rsplitColon (l : List Char) : List Char × List Char :=
  let lib := (l.reverse.takeWhile (· ≠ ':')).reverse
  (l.take (l.length - lib.length - 1), lib)

def unifyDep (path dep : String) : Except BuildError Key :=
  let l := dep.toList
  if l.head? = some ':' then .ok (normpath path, String.ofList l.tail)
  else if ['/', '/'].isPrefixOf l then
    if ':' ∉ l then .error .exception
    else
      let (remote, lib) := rsplitColon (l.drop 2)
      .ok (normpath (String.ofList remote), String.ofList lib)
  else if l.head? = some '#' then .ok ("#", String.ofList l.tail)
  else if ':' ∉ l then .error .exception
  else
    let (sub, lib) := rsplitColon l
    if sub.tails.any (['.', '.'].isPrefixOf ·) then .error .exception
    else .ok (normpath (path ++ "/" ++ String.ofList sub), String.ofList lib)

def systemLibrary : Target := { type := "system_library" }

/-- The library has a target of its own, whose name is checked. -/
def addSystemLibrary (database : Targets) (key : Key) : Except BuildError Targets :=
  if key ∈ database then .ok database
  else if '/' ∈ key.2.toList then .error .exit
  else .ok (database.insert key systemLibrary)

def addLibraryOf (dep : String) (database : Targets) (key : Key) : Except BuildError Targets :=
  if dep.toList.head? = some '#' then addSystemLibrary database key else .ok database

/-- What is in a list is not put into it again. -/
def addNew (keys : List Key) (key : Key) : List Key := if key ∈ keys then keys else keys ++ [key]

/-- `_unify_dep` with what it registers. -/
def unifyIn (path : String) (database : Targets) (dep : String) : Except BuildError (Key × Targets) := do
  let key ← unifyDep path dep
  let database ← addLibraryOf dep database key
  return (key, database)

/-- An entry of a visibility becomes a key of the list. -/
def addKey (path : String) (s : List Key × Targets) (dep : String) : Except BuildError (List Key × Targets) := do
  let (key, database) ← unifyIn path s.2 dep
  return (addNew s.1 key, database)

/-- `_init_visibility`: each entry is checked and unified in turn. -/
def addVisible (path : String) (s : List Key × Targets) (v : String) : Except BuildError (List Key × Targets) := do
  checkFormat v
  addKey path s v

def initVisibility (path : String) (database : Targets) :
    Option (List String) → Except BuildError (Option (List Key) × Targets)
  | none => .ok (none, database)
  | some visibility =>
    if visibility = ["PUBLIC"] then .ok (none, database)
    else do
      let (keys, database) ← visibility.foldlM (addVisible path) ([], database)
      return (some keys, database)

/-- `_check_srcs`: no source twice, and none outside of the directory. -/
def checkSrcs (srcs : List String) : Except BuildError Unit :=
  if ¬ srcs.Nodup then .error .exit
  else if srcs.any fun s => s.toList.tails.any (['.', '.'].isPrefixOf ·) ∨ s.toList.head? = some '/' then .error .exit
  else .ok ()

/-- A target that is being made. -/
structure Made where
  deps : List Key := []
  expandedDeps : List Key := []
  database : Targets

def Made.add (s : Made) (key : Key) : Made :=
  { s with deps := addNew s.deps key, expandedDeps := addNew s.expandedDeps key }

def Made.expand (s : Made) (key : Key) : Made := { s with expandedDeps := addNew s.expandedDeps key }

/-- One round of `_init_target_deps` and of `_add_hardcode_java_library`. -/
def addDep (path : String) (s : Made) (dep : String) : Except BuildError Made := do
  let (key, database) ← unifyIn path s.database dep
  return { s with database }.add key

def addHardcode (database : Targets) (key : Key) : Except BuildError Targets :=
  if key.1 = "#" then addSystemLibrary database key else .ok database

/-- One round of what the class does then. -/
def addOwn (path : String) (s : Made) : Addition → Except BuildError Made
  | .hardcode lib => do
    let key ← convertStringToTarget lib.1
    let database ← addHardcode s.database key
    return { s with database }.expand key
  | .unify dep => addDep path s dep
  | .plugin key => .ok (s.add key)
  | .refer dep => do
    let (_, database) ← unifyIn path s.database dep
    return { s with database }
  | .exit => .error .exit

/-- The class's checks, `Target.__init__` and what the class adds. -/
def make (path : String) (database : Targets) (rule : Rule) : Except BuildError (Target × Targets) :=
  if rule.refused then .error .exit
  else if '/' ∈ rule.name.toList then .error .exit
  else if rule.kwargs ≠ [] then .error .exit
  else do
    checkSrcs rule.srcs
    rule.deps.forM checkFormat
    let s ← rule.deps.foldlM (addDep path) { database }
    let (visibility, database) ← initVisibility path s.database rule.visibility
    let s ← rule.own.foldlM (addOwn path) { s with database }
    return ({ type := rule.type, deps := s.deps, expandedDeps := s.expandedDeps, visibility }, s.database)

/-- With `register_target`. -/
def register (path : String) (database : Targets) (rule : Rule) : Except BuildError Targets := do
  let (target, database) ← make path database rule
  if rule.registers = false then return database
  else if (path, rule.name) ∈ database then .error .exit
  else return database.insert (path, rule.name) target

/-! ## BUILD files -/

structure Loaded where
  processed : List String := []
  database : Targets := ∅

/-- `_load_build_file`. -/
def loadBuildFile (files : Files) (s : Loaded) (sourceDir : String) : Except Fatal Loaded :=
  let sourceDir := normpath sourceDir
  if sourceDir ∈ s.processed ∨ sourceDir = "#" then .ok s
  else
    match files.lookup sourceDir with
    | none => .error (.notFound sourceDir)
    | some rules =>
      match rules.foldlM (register sourceDir) s.database with
      | .error .exit => .error (.fatalError sourceDir)
      | .error .exception => .error (.parseError sourceDir)
      | .ok database => .ok { processed := sourceDir :: s.processed, database }

/-! ## What can be read -/

/-- The system library that a text names. -/
def libraryOf (text : String) : Option Key :=
  if text.toList.head? = some '#' then some ("#", String.ofList text.toList.tail) else none

/-- The entries of a visibility that become keys. -/
def visibilityTexts : Option (List String) → List String
  | none => []
  | some visibility => if visibility = ["PUBLIC"] then [] else visibility

/-- The name of a system library has no slash. -/
def LibraryOk (text : String) : Prop := ∀ key, libraryOf text = some key → '/' ∉ key.2.toList

structure KeyOk (path text : String) : Prop where
  unify : ∃ key, unifyDep path text = .ok key
  library : LibraryOk text

inductive AdditionOk (path : String) : Addition → Prop
  | hardcode (lib : HardcodeLib) (key : Key) : convertStringToTarget lib.1 = .ok key → LibraryOk lib.1 →
      AdditionOk path (.hardcode lib)
  | unify (dep : String) : KeyOk path dep → AdditionOk path (.unify dep)
  | plugin (key : Key) : AdditionOk path (.plugin key)
  | refer (dep : String) : KeyOk path dep → AdditionOk path (.refer dep)

/-- The texts of a rule that may name a system library. -/
def textsOf (rule : Rule) : List String :=
  rule.deps ++ visibilityTexts rule.visibility ++ rule.own.filterMap Addition.text

structure RuleOk (path : String) (rule : Rule) : Prop where
  taken : rule.refused = false
  name : '/' ∉ rule.name.toList
  kwargs : rule.kwargs = []
  srcs : checkSrcs rule.srcs = .ok ()
  format : ∀ text ∈ rule.deps ++ visibilityTexts rule.visibility, checkFormat text = .ok ()
  keys : ∀ text ∈ rule.deps ++ visibilityTexts rule.visibility, KeyOk path text
  own : ∀ a ∈ rule.own, AdditionOk path a

/-- The names under which a row of rules registers targets. -/
def namesOf (rules : List Rule) : List String := (rules.filter (·.registers)).map (·.name)

/-- Each rule is in order, and no two have one name. -/
def Readable (files : Files) (path : String) : Prop :=
  ∃ rules, files.lookup path = some rules ∧ (∀ rule ∈ rules, RuleOk path rule) ∧ (namesOf rules).Nodup

/-! ## What is registered then -/

def additionKey (path : String) : Addition → Option Key
  | .hardcode lib => (convertStringToTarget lib.1).toOption
  | .unify dep => (unifyDep path dep).toOption
  | .plugin key => some key
  | .refer _ | .exit => none

/-- The keys of a row of additions. -/
def additionKeys (path : String) (keys : List Key) (l : List Addition) : List Key :=
  l.foldl (fun keys a => (additionKey path a).elim keys (addNew keys)) keys

/-- The keys of a row of texts. -/
def keysOf (path : String) (l : List String) : List Key := additionKeys path [] (l.map .unify)

/-- The rule's dependencies and those that its class adds. -/
def additionsOf (rule : Rule) : List Addition := rule.deps.map .unify ++ rule.own

/-- The target that a rule makes. -/
def targetOf (path : String) (rule : Rule) : Target where
  type := rule.type
  deps := additionKeys path [] ((additionsOf rule).filter (·.inDeps))
  expandedDeps := additionKeys path [] (additionsOf rule)
  visibility := rule.visibility.bind fun visibility =>
    if visibility = ["PUBLIC"] then none else some (keysOf path visibility)

def withLibrary (database : Targets) (key : Key) : Targets :=
  if key ∈ database then database else database.insert key systemLibrary

def withLibraries (database : Targets) (l : List String) : Targets :=
  l.foldl (fun database text => (libraryOf text).elim database (withLibrary database)) database

def registered (path : String) (database : Targets) (rule : Rule) : Targets :=
  let database := withLibraries database (textsOf rule)
  if rule.registers then database.insert (path, rule.name) (targetOf path rule) else database

/-- The system libraries have names without a slash. -/
def Clean (database : Targets) : Prop := ∀ k ∈ database, k.1 = "#" → '/' ∉ k.2.toList

variable {files : Files} {database database' : Targets} {path : String}

theorem mem_foldl_addNew {l keys : List Key} {k : Key} : k ∈ l.foldl addNew keys ↔ k ∈ keys ∨ k ∈ l := by
  induction l generalizing keys with
  | nil => simp
  | cons d l ih =>
    have hone : k ∈ addNew keys d ↔ k ∈ keys ∨ k = d := by
      unfold addNew
      split
      · rename_i hd
        exact ⟨.inl, fun hk => hk.elim id fun heq => heq ▸ hd⟩
      · rw [List.mem_append, List.mem_singleton]
    rw [List.foldl_cons, ih, hone, List.mem_cons, or_assoc]

theorem nodup_foldl_addNew {l keys : List Key} (h : keys.Nodup) : (l.foldl addNew keys).Nodup := by
  induction l generalizing keys with
  | nil => exact h
  | cons d l ih =>
    refine ih ?_
    unfold addNew
    split
    · exact h
    · rename_i hd
      exact h.append (List.nodup_singleton d) (List.disjoint_singleton.mpr hd)

theorem mem_additionKeys {l : List Addition} {keys : List Key} {k : Key} :
    k ∈ additionKeys path keys l ↔ k ∈ keys ∨ ∃ a ∈ l, additionKey path a = some k := by
  unfold additionKeys
  induction l generalizing keys with
  | nil => simp
  | cons a l ih =>
    rw [List.foldl_cons, ih, List.exists_mem_cons_iff, ← or_assoc]
    refine or_congr_left ?_
    cases hkey : additionKey path a with
    | none => simp
    | some key =>
      have hone : k ∈ [key].foldl addNew keys ↔ k ∈ keys ∨ k ∈ [key] := mem_foldl_addNew
      simpa [eq_comm] using hone

theorem clean_withLibrary (h : Clean database) {key : Key} (hkey : '/' ∉ key.2.toList) :
    Clean (withLibrary database key) := by
  unfold withLibrary
  split
  · exact h
  · intro k hk hsystem
    rcases (Finmap.mem_insert).mp hk with rfl | hk
    · exact hkey
    · exact h k hk hsystem

theorem addSystemLibrary_eq_ok_iff (h : Clean database) {key : Key} (hkey : key.1 = "#") :
    addSystemLibrary database key = .ok database' ↔ '/' ∉ key.2.toList ∧ database' = withLibrary database key := by
  unfold addSystemLibrary withLibrary
  by_cases hmem : key ∈ database
  · have hclean := h key hmem hkey
    simp [hmem, hclean, eq_comm]
  · by_cases hslash : '/' ∈ key.2.toList <;> simp [hmem, hslash, eq_comm]

/-- The key of a text that begins with `#`. -/
theorem unifyDep_of_libraryOf {text : String} {key : Key} (h : libraryOf text = some key) :
    unifyDep path text = .ok key ∧ key.1 = "#" := by
  unfold libraryOf at h
  split at h
  · rename_i hhash
    cases h
    have hslash : ['/', '/'].isPrefixOf text.toList = false := by
      cases hl : text.toList with
      | nil => rfl
      | cons c l =>
        rw [hl, List.head?_cons, Option.some_inj] at hhash
        subst hhash
        rfl
    refine ⟨?_, rfl⟩
    unfold unifyDep
    simp only [hhash, hslash]
    rfl
  · cases h

/-- The database when a text has been unified. -/
def withText (database : Targets) (text : String) : Targets :=
  (libraryOf text).elim database (withLibrary database)

theorem clean_withText {text : String} (h : Clean database) (hok : LibraryOk text) : Clean (withText database text) := by
  unfold withText
  cases hlib : libraryOf text with
  | none => exact h
  | some lib => exact clean_withLibrary h (hok lib hlib)

theorem clean_withLibraries {l : List String} (h : Clean database) (hl : ∀ text ∈ l, LibraryOk text) :
    Clean (withLibraries database l) := by
  induction l generalizing database with
  | nil => exact h
  | cons text l ih =>
    exact ih (clean_withText h (hl text List.mem_cons_self)) fun t ht => hl t (List.mem_cons_of_mem _ ht)

theorem withLibraries_append (database : Targets) (l l' : List String) :
    withLibraries database (l ++ l') = withLibraries (withLibraries database l) l' := List.foldl_append

theorem addLibraryOf_eq_ok_iff (h : Clean database) {text : String} {key : Key} (hkey : unifyDep path text = .ok key) :
    addLibraryOf text database key = .ok database' ↔ LibraryOk text ∧ database' = withText database text := by
  unfold addLibraryOf LibraryOk withText
  cases hlib : libraryOf text with
  | none =>
    have hhash : text.toList.head? ≠ some '#' := fun hhash => by simp [libraryOf, hhash] at hlib
    simp [hhash, eq_comm]
  | some lib =>
    have hhash : text.toList.head? = some '#' := by
      by_contra hhash
      simp [libraryOf, hhash] at hlib
    obtain ⟨hlibKey, hsystem⟩ := unifyDep_of_libraryOf hlib
    cases hlibKey.symm.trans hkey
    rw [if_pos hhash, addSystemLibrary_eq_ok_iff h hsystem]
    simp

theorem unifyIn_eq_ok_iff (h : Clean database) {text : String} {r : Key × Targets} :
    unifyIn path database text = .ok r ↔
      KeyOk path text ∧ unifyDep path text = .ok r.1 ∧ r.2 = withText database text := by
  unfold unifyIn
  rw [bind_eq_ok_iff]
  constructor
  · rintro ⟨key, hkey, hrun⟩
    obtain ⟨database, hadd, hrun⟩ := bind_eq_ok_iff.mp hrun
    cases hrun
    obtain ⟨hlib, rfl⟩ := (addLibraryOf_eq_ok_iff h hkey).mp hadd
    exact ⟨⟨⟨key, hkey⟩, hlib⟩, hkey, rfl⟩
  · rintro ⟨hok, hkey, hr⟩
    refine ⟨r.1, hkey, bind_eq_ok_iff.mpr ⟨_, (addLibraryOf_eq_ok_iff h hkey).mpr ⟨hok.library, rfl⟩, ?_⟩⟩
    rw [← hr]
    rfl

/-! ### A visibility -/

/-- The state of the loop after a text. -/
def nextKey (path : String) (s : List Key × Targets) (text : String) : List Key × Targets :=
  (additionKeys path s.1 [.unify text], withText s.2 text)

theorem addKey_eq_ok_iff {s s' : List Key × Targets} {text : String} (h : Clean s.2) :
    addKey path s text = .ok s' ↔ KeyOk path text ∧ s' = nextKey path s text := by
  have hnext : ∀ key, unifyDep path text = .ok key → nextKey path s text = (addNew s.1 key, withText s.2 text) := by
    intro key hkey
    simp [nextKey, additionKeys, additionKey, hkey, Except.toOption]
  unfold addKey
  rw [bind_eq_ok_iff]
  constructor
  · rintro ⟨r, hr, hrun⟩
    obtain ⟨hok, hkey, heq⟩ := (unifyIn_eq_ok_iff h).mp hr
    cases hrun
    rw [hnext _ hkey, heq]
    exact ⟨hok, rfl⟩
  · rintro ⟨hok, rfl⟩
    obtain ⟨key, hkey⟩ := hok.unify
    refine ⟨(key, withText s.2 text), (unifyIn_eq_ok_iff h).mpr ⟨hok, hkey, rfl⟩, ?_⟩
    rw [hnext key hkey]
    rfl

theorem foldl_nextKey (l : List String) (keys : List Key) (database : Targets) :
    l.foldl (nextKey path) (keys, database) =
      (additionKeys path keys (l.map .unify), withLibraries database l) := by
  induction l generalizing keys database with
  | nil => rfl
  | cons text l ih =>
    rw [List.foldl_cons, nextKey, ih]
    rfl

theorem foldlM_addVisible_eq_ok_iff {l : List String} {r : List Key × Targets} (h : Clean database) :
    l.foldlM (addVisible path) ([], database) = .ok r ↔
      (∀ text ∈ l, checkFormat text = .ok () ∧ KeyOk path text) ∧ r = (keysOf path l, withLibraries database l) := by
  have hstep : ∀ (s : List Key × Targets) (text : String) (s' : List Key × Targets), Clean s.2 →
      (addVisible path s text = .ok s' ↔ (checkFormat text = .ok () ∧ KeyOk path text) ∧ s' = nextKey path s text) := by
    intro s text s' hs
    unfold addVisible
    rw [bind_eq_ok_iff, and_assoc, ← addKey_eq_ok_iff hs]
    exact ⟨fun ⟨_, hformat, hadd⟩ => ⟨hformat, hadd⟩, fun ⟨hformat, hadd⟩ => ⟨(), hformat, hadd⟩⟩
  rw [foldlM_eq_ok_iff hstep (fun s text hs hok => clean_withText hs hok.2.library) h, foldl_nextKey]
  rfl

theorem initVisibility_eq_ok_iff {v : Option (List String)} {r : Option (List Key) × Targets} (h : Clean database) :
    initVisibility path database v = .ok r ↔
      (∀ text ∈ visibilityTexts v, checkFormat text = .ok () ∧ KeyOk path text) ∧
        r = (v.bind fun visibility => if visibility = ["PUBLIC"] then none else some (keysOf path visibility),
          withLibraries database (visibilityTexts v)) := by
  cases v with
  | none => simp [initVisibility, visibilityTexts, withLibraries, eq_comm]
  | some visibility =>
    by_cases hpublic : visibility = ["PUBLIC"]
    · simp [initVisibility, visibilityTexts, withLibraries, hpublic, eq_comm]
    · simp only [initVisibility, visibilityTexts, hpublic, if_false, Option.bind_some]
      rw [bind_eq_ok_iff]
      constructor
      · rintro ⟨s, hrun, hr⟩
        obtain ⟨hall, rfl⟩ := (foldlM_addVisible_eq_ok_iff h).mp hrun
        exact ⟨hall, (Except.ok.inj hr).symm⟩
      · rintro ⟨hall, rfl⟩
        exact ⟨_, (foldlM_addVisible_eq_ok_iff h).mpr ⟨hall, rfl⟩, rfl⟩

/-! ### Dependencies and what the class adds -/

/-- The state after an addition. -/
def Made.next (path : String) (s : Made) (a : Addition) : Made where
  deps := if a.inDeps then additionKeys path s.deps [a] else s.deps
  expandedDeps := additionKeys path s.expandedDeps [a]
  database := a.text.elim s.database (withText s.database)

/-- A configured library has `#` for its directory only where it begins with it. -/
theorem libraryOf_hardcode {lib : HardcodeLib} {key : Key} (h : convertStringToTarget lib.1 = .ok key) :
    libraryOf lib.1 = if key.1 = "#" then some key else none := by
  obtain ⟨text, hhash⟩ := lib
  simp only at h ⊢
  simp only [systemByHash, h, decide_eq_true_iff] at hhash
  unfold libraryOf
  by_cases hhead : text.toList.head? = some '#'
  · simp only [convertStringToTarget, hhead, if_true] at h
    cases h
    simp [hhead]
  · rw [if_neg hhead, if_neg (hhash.resolve_right hhead)]

theorem addHardcode_eq_ok_iff (h : Clean database) {lib : HardcodeLib} {key : Key}
    (hkey : convertStringToTarget lib.1 = .ok key) :
    addHardcode database key = .ok database' ↔ LibraryOk lib.1 ∧ database' = withText database lib.1 := by
  unfold addHardcode LibraryOk withText
  rw [libraryOf_hardcode hkey]
  by_cases hsystem : key.1 = "#"
  · simp only [if_pos hsystem]
    rw [addSystemLibrary_eq_ok_iff h hsystem]
    simp
  · simp only [if_neg hsystem, Except.ok.injEq, Option.elim_none]
    exact ⟨fun heq => ⟨nofun, heq.symm⟩, fun hok => hok.2.symm⟩

theorem addDep_eq_ok_iff {s s' : Made} {dep : String} (h : Clean s.database) :
    addDep path s dep = .ok s' ↔ KeyOk path dep ∧ s' = s.next path (.unify dep) := by
  have hnext : ∀ key, unifyDep path dep = .ok key →
      s.next path (.unify dep) = { s with database := withText s.database dep }.add key := by
    intro key hkey
    simp [Made.next, Made.add, Addition.inDeps, Addition.text, additionKeys, additionKey, hkey, Except.toOption]
  unfold addDep
  rw [bind_eq_ok_iff]
  constructor
  · rintro ⟨r, hr, hrun⟩
    obtain ⟨hok, hkey, heq⟩ := (unifyIn_eq_ok_iff h).mp hr
    cases hrun
    rw [hnext _ hkey, ← heq]
    exact ⟨hok, rfl⟩
  · rintro ⟨hok, rfl⟩
    obtain ⟨key, hkey⟩ := hok.unify
    refine ⟨(key, withText s.database dep), (unifyIn_eq_ok_iff h).mpr ⟨hok, hkey, rfl⟩, ?_⟩
    rw [hnext key hkey]
    rfl

/-- One round of what the class adds. -/
theorem addOwn_eq_ok_iff {s s' : Made} {a : Addition} (h : Clean s.database) :
    addOwn path s a = .ok s' ↔ AdditionOk path a ∧ s' = s.next path a := by
  cases a with
  | hardcode lib =>
    unfold addOwn
    rw [bind_eq_ok_iff]
    have hnext : ∀ key, convertStringToTarget lib.1 = .ok key → s.next path (.hardcode lib) =
        { s with database := withText s.database lib.1 }.expand key := by
      intro key hkey
      simp [Made.next, Made.expand, Addition.inDeps, Addition.text, additionKeys, additionKey, hkey, Except.toOption]
    constructor
    · rintro ⟨key, hkey, hrun⟩
      obtain ⟨database, hadd, hrun⟩ := bind_eq_ok_iff.mp hrun
      cases hrun
      obtain ⟨hlib, rfl⟩ := (addHardcode_eq_ok_iff h hkey).mp hadd
      exact ⟨.hardcode lib key hkey hlib, (hnext key hkey).symm⟩
    · rintro ⟨hok, rfl⟩
      cases hok with
      | hardcode _ key hkey hlib =>
        refine ⟨key, hkey, bind_eq_ok_iff.mpr ⟨_, (addHardcode_eq_ok_iff h hkey).mpr ⟨hlib, rfl⟩, ?_⟩⟩
        rw [hnext key hkey]
        rfl
  | unify dep =>
    rw [addOwn, addDep_eq_ok_iff h]
    refine and_congr_left' ⟨.unify dep, fun hok => ?_⟩
    cases hok with
    | unify _ hok => exact hok
  | plugin key => exact ⟨fun hrun => ⟨.plugin key, (Except.ok.inj hrun).symm⟩, fun hrun => congrArg Except.ok hrun.2.symm⟩
  | refer dep =>
    have hnext : s.next path (.refer dep) = { s with database := withText s.database dep } := rfl
    unfold addOwn
    rw [bind_eq_ok_iff, hnext]
    constructor
    · rintro ⟨r, hr, hrun⟩
      obtain ⟨hok, -, heq⟩ := (unifyIn_eq_ok_iff h).mp hr
      cases hrun
      rw [heq]
      exact ⟨.refer dep hok, rfl⟩
    · rintro ⟨hok, rfl⟩
      cases hok with
      | refer _ hok =>
        obtain ⟨key, hkey⟩ := hok.unify
        exact ⟨(key, withText s.database dep), (unifyIn_eq_ok_iff h).mpr ⟨hok, hkey, rfl⟩, rfl⟩
  | exit => exact ⟨nofun, fun hrun => nomatch hrun.1⟩

theorem AdditionOk.library {a : Addition} (h : AdditionOk path a) {text : String} (htext : a.text = some text) :
    LibraryOk text := by
  cases h with
  | hardcode lib key _ hlib =>
    cases htext
    exact hlib
  | unify dep hok =>
    cases htext
    exact hok.library
  | plugin key => cases htext
  | refer dep hok =>
    cases htext
    exact hok.library

theorem clean_next {s : Made} {a : Addition} (h : Clean s.database) (hok : AdditionOk path a) :
    Clean (s.next path a).database := by
  unfold Made.next
  cases htext : a.text with
  | none => exact h
  | some text => exact clean_withText h (hok.library htext)

theorem foldl_next (l : List Addition) (s : Made) :
    l.foldl (Made.next path) s =
      { deps := additionKeys path s.deps (l.filter (·.inDeps))
        expandedDeps := additionKeys path s.expandedDeps l
        database := withLibraries s.database (l.filterMap Addition.text) } := by
  induction l generalizing s with
  | nil => rfl
  | cons a l ih =>
    rw [List.foldl_cons, ih]
    cases a <;> rfl

theorem foldlM_addDep_eq_ok_iff {l : List String} {s s' : Made} (h : Clean s.database) :
    l.foldlM (addDep path) s = .ok s' ↔
      (∀ dep ∈ l, KeyOk path dep) ∧ s' = (l.map .unify).foldl (Made.next path) s := by
  have hstep : ∀ (s : Made) (dep : String) (s' : Made), Clean s.database →
      (addDep path s dep = .ok s' ↔ KeyOk path dep ∧ s' = s.next path (.unify dep)) := fun s dep s' => addDep_eq_ok_iff
  rw [foldlM_eq_ok_iff hstep (fun s dep hs hok => clean_next hs (.unify dep hok)) h, List.foldl_map]

theorem foldlM_addOwn_eq_ok_iff {l : List Addition} {s s' : Made} (h : Clean s.database) :
    l.foldlM (addOwn path) s = .ok s' ↔ (∀ a ∈ l, AdditionOk path a) ∧ s' = l.foldl (Made.next path) s := by
  have hstep : ∀ (s : Made) (a : Addition) (s' : Made), Clean s.database →
      (addOwn path s a = .ok s' ↔ AdditionOk path a ∧ s' = s.next path a) := fun s a s' => addOwn_eq_ok_iff
  exact foldlM_eq_ok_iff hstep (fun s a hs hok => clean_next hs hok) h

/-! ### A rule -/

theorem forM_checkFormat_eq_ok_iff {l : List String} :
    l.forM checkFormat = .ok () ↔ ∀ t ∈ l, checkFormat t = .ok () := by
  induction l with
  | nil => exact ⟨fun _ => nofun, fun _ => rfl⟩
  | cons t l ih =>
    rw [List.forM_eq_forM, List.forM_cons, bind_eq_ok_iff, List.forall_mem_cons, ← ih]
    exact ⟨fun ⟨_, ht, hl⟩ => ⟨ht, hl⟩, fun ⟨ht, hl⟩ => ⟨(), ht, hl⟩⟩

theorem filterMap_text_unify (l : List String) : (l.map Addition.unify).filterMap Addition.text = l := by
  rw [List.filterMap_map]
  exact List.filterMap_some

theorem filter_inDeps_unify (l : List String) :
    (l.map Addition.unify).filter (·.inDeps) = l.map Addition.unify := by
  rw [List.filter_eq_self]
  intro a ha
  obtain ⟨text, -, rfl⟩ := List.mem_map.mp ha
  rfl

theorem additionKeys_append (keys : List Key) (l l' : List Addition) :
    additionKeys path keys (l ++ l') = additionKeys path (additionKeys path keys l) l' := List.foldl_append

theorem RuleOk.libraryOk {rule : Rule} (h : RuleOk path rule) : ∀ text ∈ textsOf rule, LibraryOk text := by
  intro text htext
  rcases List.mem_append.mp htext with htext | htext
  · exact (h.keys text htext).library
  · obtain ⟨a, ha, htext⟩ := List.mem_filterMap.mp htext
    exact (h.own a ha).library htext

theorem mem_textsOf {rule : Rule} {a : Addition} (ha : a ∈ additionsOf rule) {text : String}
    (htext : a.text = some text) : text ∈ textsOf rule := by
  rcases List.mem_append.mp ha with ha | ha
  · obtain ⟨dep, hdep, rfl⟩ := List.mem_map.mp ha
    cases htext
    exact List.mem_append_left _ (List.mem_append_left _ hdep)
  · exact List.mem_append_right _ (List.mem_filterMap.mpr ⟨a, ha, htext⟩)

/-- Whether a rule's target can be made, and what it is then. -/
theorem make_eq_ok_iff {rule : Rule} {r : Target × Targets} (h : Clean database) :
    make path database rule = .ok r ↔
      RuleOk path rule ∧ r = (targetOf path rule, withLibraries database (textsOf rule)) := by
  have hdeps : (rule.deps.map Addition.unify).foldl (Made.next path) { database } =
      { deps := keysOf path rule.deps
        expandedDeps := keysOf path rule.deps
        database := withLibraries database rule.deps } := by
    rw [foldl_next, filterMap_text_unify, filter_inDeps_unify]
    rfl
  have hown : rule.own.foldl (Made.next path)
      { deps := keysOf path rule.deps
        expandedDeps := keysOf path rule.deps
        database := withLibraries (withLibraries database rule.deps) (visibilityTexts rule.visibility) } =
      { deps := (targetOf path rule).deps
        expandedDeps := (targetOf path rule).expandedDeps
        database := withLibraries database (textsOf rule) } := by
    rw [foldl_next, targetOf, additionsOf, List.filter_append, additionKeys_append, additionKeys_append,
      filter_inDeps_unify, textsOf, withLibraries_append, withLibraries_append]
    rfl
  unfold make
  split
  · rename_i hrefused
    exact ⟨nofun, fun hok => absurd (hok.1.taken.symm.trans hrefused) nofun⟩
  rename_i hrefused
  split
  · rename_i hslash
    exact ⟨nofun, fun hok => absurd hslash hok.1.name⟩
  rename_i hslash
  split
  · rename_i hkwargs
    exact ⟨nofun, fun hok => absurd hok.1.kwargs hkwargs⟩
  rename_i hkwargs
  have hclean : (∀ dep ∈ rule.deps, KeyOk path dep) → Clean (withLibraries database rule.deps) :=
    fun hkeys => clean_withLibraries h fun dep hdep => (hkeys dep hdep).library
  constructor
  · intro hrun
    obtain ⟨_, hsrcs, hrun⟩ := bind_eq_ok_iff.mp hrun
    obtain ⟨_, hformat, hrun⟩ := bind_eq_ok_iff.mp hrun
    obtain ⟨_, hadd, hrun⟩ := bind_eq_ok_iff.mp hrun
    obtain ⟨hkeys, rfl⟩ := (foldlM_addDep_eq_ok_iff h).mp hadd
    rw [hdeps] at hrun
    obtain ⟨_, hvisibility, hrun⟩ := bind_eq_ok_iff.mp hrun
    obtain ⟨hvisible, rfl⟩ := (initVisibility_eq_ok_iff (hclean hkeys)).mp hvisibility
    obtain ⟨_, hadded, hrun⟩ := bind_eq_ok_iff.mp hrun
    have hclean' := clean_withLibraries (hclean hkeys) fun text htext => (hvisible text htext).2.library
    obtain ⟨hall, rfl⟩ := (foldlM_addOwn_eq_ok_iff (by exact hclean')).mp hadded
    rw [hown] at hrun
    cases hrun
    refine ⟨⟨eq_false_of_ne_true hrefused, hslash, not_not.mp hkwargs, hsrcs, ?_, ?_, hall⟩, rfl⟩
    · exact List.forall_mem_append.mpr ⟨forM_checkFormat_eq_ok_iff.mp hformat, fun t ht => (hvisible t ht).1⟩
    · exact List.forall_mem_append.mpr ⟨hkeys, fun t ht => (hvisible t ht).2⟩
  · rintro ⟨hok, rfl⟩
    obtain ⟨hformat, hformat'⟩ := List.forall_mem_append.mp hok.format
    obtain ⟨hkeys, hkeys'⟩ := List.forall_mem_append.mp hok.keys
    have hclean' := clean_withLibraries (hclean hkeys) fun text htext => (hkeys' text htext).library
    refine bind_eq_ok_iff.mpr ⟨(), hok.srcs, ?_⟩
    refine bind_eq_ok_iff.mpr ⟨(), forM_checkFormat_eq_ok_iff.mpr hformat, ?_⟩
    refine bind_eq_ok_iff.mpr ⟨_, (foldlM_addDep_eq_ok_iff h).mpr ⟨hkeys, rfl⟩, ?_⟩
    rw [hdeps]
    refine bind_eq_ok_iff.mpr ⟨_, (initVisibility_eq_ok_iff (hclean hkeys)).mpr
      ⟨fun t ht => ⟨hformat' t ht, hkeys' t ht⟩, rfl⟩, ?_⟩
    refine bind_eq_ok_iff.mpr ⟨_, (foldlM_addOwn_eq_ok_iff (by exact hclean')).mpr ⟨hok.own, rfl⟩, ?_⟩
    rw [hown]
    rfl

/-- Whether a rule can be registered, and what is registered. -/
theorem register_eq_ok_iff {rule : Rule} (h : Clean database) :
    register path database rule = .ok database' ↔
      RuleOk path rule ∧ (rule.registers → (path, rule.name) ∉ withLibraries database (textsOf rule)) ∧
        database' = registered path database rule := by
  unfold register registered
  rw [bind_eq_ok_iff]
  constructor
  · rintro ⟨r, hmake, hrun⟩
    obtain ⟨hok, rfl⟩ := (make_eq_ok_iff h).mp hmake
    refine ⟨hok, ?_⟩
    dsimp only at hrun
    by_cases hreg : rule.registers = true
    · rw [if_neg (by simp [hreg])] at hrun
      by_cases hnew : (path, rule.name) ∈ withLibraries database (textsOf rule)
      · rw [if_pos hnew] at hrun
        cases hrun
      · rw [if_neg hnew] at hrun
        dsimp only
        rw [if_pos hreg]
        exact ⟨fun _ => hnew, (Except.ok.inj hrun).symm⟩
    · rw [if_pos (by simpa using hreg)] at hrun
      dsimp only
      rw [if_neg hreg]
      exact ⟨fun h => absurd h hreg, (Except.ok.inj hrun).symm⟩
  · rintro ⟨hok, hnew, rfl⟩
    refine ⟨_, (make_eq_ok_iff h).mpr ⟨hok, rfl⟩, ?_⟩
    dsimp only
    by_cases hreg : rule.registers = true
    · rw [if_neg (by simp [hreg]), if_neg (hnew hreg), if_pos hreg]
      rfl
    · rw [if_pos (by simpa using hreg), if_neg hreg]
      rfl

/-! ## The rules of a file -/

def librariesOf (l : List String) : List Key := l.filterMap libraryOf

theorem mem_librariesOf {l : List String} {k : Key} : k ∈ librariesOf l ↔ ∃ text ∈ l, libraryOf text = some k :=
  List.mem_filterMap

theorem lookup_withLibraries (database : Targets) (l : List String) (k : Key) :
    (withLibraries database l).lookup k =
      (database.lookup k).or (if k ∈ librariesOf l then some systemLibrary else none) := by
  induction l generalizing database with
  | nil => simp [withLibraries, librariesOf]
  | cons text l ih =>
    have hone : ((libraryOf text).elim database (withLibrary database)).lookup k =
        (database.lookup k).or (if libraryOf text = some k then some systemLibrary else none) := by
      cases hlib : libraryOf text with
      | none => simp
      | some lib =>
        simp only [Option.elim_some, Option.some.injEq]
        unfold withLibrary
        split
        · rename_i hmem
          obtain ⟨t, ht⟩ := Finmap.mem_iff.mp hmem
          by_cases hk : lib = k
          · subst hk
            rw [ht, Option.some_or]
          · rw [if_neg hk, Option.or_none]
        · rename_i hnew
          rw [FinMap.lookup_insert_ite]
          by_cases hk : k = lib
          · subst hk
            rw [if_pos rfl, if_pos rfl, Finmap.lookup_eq_none.mpr hnew, Option.none_or]
          · rw [if_neg hk, if_neg (Ne.symm hk), Option.or_none]
    have hmem : k ∈ librariesOf (text :: l) ↔ libraryOf text = some k ∨ k ∈ librariesOf l := by
      simp [mem_librariesOf]
    have hrun : withLibraries database (text :: l) =
        withLibraries ((libraryOf text).elim database (withLibrary database)) l := rfl
    rw [hrun, ih, hone, Option.or_assoc]
    by_cases hk : libraryOf text = some k <;> simp [hk, hmem]

theorem system_of_mem_librariesOf {l : List String} {k : Key} (h : k ∈ librariesOf l) : k.1 = "#" := by
  obtain ⟨text, -, htext⟩ := mem_librariesOf.mp h
  unfold libraryOf at htext
  split at htext
  · cases htext
    rfl
  · cases htext

theorem lookup_withLibraries_of_ne (l : List String) {k : Key} (hk : k.1 ≠ "#") :
    (withLibraries database l).lookup k = database.lookup k := by
  rw [lookup_withLibraries, if_neg fun h => hk (system_of_mem_librariesOf h), Option.or_none]

theorem lookup_registered (database : Targets) (rule : Rule) (k : Key) :
    (registered path database rule).lookup k =
      if rule.registers ∧ k = (path, rule.name) then some (targetOf path rule)
      else (withLibraries database (textsOf rule)).lookup k := by
  unfold registered
  by_cases hreg : rule.registers
  · dsimp only
    rw [if_pos hreg, FinMap.lookup_insert_ite]
    simp only [hreg, true_and]
  · dsimp only
    rw [if_neg hreg, if_neg fun h => hreg h.1]

theorem mem_registered_iff {rule : Rule} {k : Key} (hk : k.1 ≠ "#") :
    k ∈ registered path database rule ↔ (rule.registers ∧ k = (path, rule.name)) ∨ k ∈ database := by
  simp only [Finmap.mem_iff, lookup_registered, lookup_withLibraries_of_ne _ hk]
  by_cases hkey : rule.registers ∧ k = (path, rule.name)
  · simp [hkey]
  · simp only [hkey, if_false, false_or]

theorem clean_registered {rule : Rule} (hpath : path ≠ "#") (h : Clean database) (hok : RuleOk path rule) :
    Clean (registered path database rule) := by
  intro k hk hsystem
  obtain ⟨t, ht⟩ := Finmap.mem_iff.mp hk
  rw [lookup_registered] at ht
  split at ht
  · rename_i hkey
    rw [hkey.2] at hsystem
    exact absurd hsystem hpath
  · exact clean_withLibraries h hok.libraryOk k (Finmap.mem_iff.mpr ⟨t, ht⟩) hsystem

theorem mem_namesOf {rules : List Rule} {name : String} :
    name ∈ namesOf rules ↔ ∃ rule ∈ rules, rule.registers ∧ rule.name = name := by
  simp [namesOf, and_assoc]

theorem nodup_namesOf_cons {rule : Rule} {rules : List Rule} :
    (namesOf (rule :: rules)).Nodup ↔ (rule.registers → rule.name ∉ namesOf rules) ∧ (namesOf rules).Nodup := by
  unfold namesOf
  by_cases hreg : rule.registers
  · rw [List.filter_cons_of_pos hreg, List.map_cons, List.nodup_cons]
    simp only [hreg, true_implies]
  · rw [List.filter_cons_of_neg hreg]
    exact ⟨fun h => ⟨fun h' => absurd h' hreg, h⟩, And.right⟩

theorem foldlM_register_eq_ok_iff {rules : List Rule} (hpath : path ≠ "#") (h : Clean database) :
    rules.foldlM (register path) database = .ok database' ↔
      (∀ rule ∈ rules, RuleOk path rule ∧ (rule.registers → (path, rule.name) ∉ database)) ∧ (namesOf rules).Nodup ∧
        database' = rules.foldl (registered path) database := by
  induction rules generalizing database with
  | nil =>
    rw [List.foldlM_nil]
    exact ⟨fun hrun => ⟨nofun, List.nodup_nil, (Except.ok.inj hrun).symm⟩, fun hrun => congrArg Except.ok hrun.2.2.symm⟩
  | cons rule rules ih =>
    have hnew : ∀ r : Rule, (path, r.name) ∉ registered path database rule ↔
        (rule.registers → r.name ≠ rule.name) ∧ (path, r.name) ∉ database := by
      intro r
      rw [mem_registered_iff hpath, not_or, not_and, Prod.mk.injEq, not_and]
      exact and_congr_left' (imp_congr_right fun _ => forall_prop_of_true rfl)
    have hfirst : (path, rule.name) ∉ withLibraries database (textsOf rule) ↔ (path, rule.name) ∉ database := by
      rw [Finmap.mem_iff, Finmap.mem_iff, lookup_withLibraries_of_ne (textsOf rule) (by exact hpath)]
    rw [List.foldlM_cons, bind_eq_ok_iff, nodup_namesOf_cons, List.forall_mem_cons, List.foldl_cons]
    constructor
    · rintro ⟨database₁, hone, hrun⟩
      obtain ⟨hok, hfresh, rfl⟩ := (register_eq_ok_iff h).mp hone
      obtain ⟨hall, hnd, rfl⟩ := (ih (clean_registered hpath h hok)).mp hrun
      refine ⟨⟨⟨hok, fun hreg => hfirst.mp (hfresh hreg)⟩,
        fun r hr => ⟨(hall r hr).1, fun hreg => ((hnew r).mp ((hall r hr).2 hreg)).2⟩⟩, ⟨fun hreg hmem => ?_, hnd⟩, rfl⟩
      obtain ⟨r, hr, hreg', hname⟩ := mem_namesOf.mp hmem
      exact ((hnew r).mp ((hall r hr).2 hreg')).1 hreg hname
    · rintro ⟨⟨⟨hok, hfresh⟩, hall⟩, ⟨hdup, hnd⟩, rfl⟩
      refine ⟨_, (register_eq_ok_iff h).mpr ⟨hok, fun hreg => hfirst.mpr (hfresh hreg), rfl⟩, ?_⟩
      refine (ih (clean_registered hpath h hok)).mpr ⟨fun r hr => ⟨(hall r hr).1, fun hreg' => ?_⟩, hnd, rfl⟩
      exact (hnew r).mpr ⟨fun hreg hname => hdup hreg (mem_namesOf.mpr ⟨r, hr, hreg', hname⟩), (hall r hr).2 hreg'⟩

/-- The target of that name that the rules make. -/
def targetAmong (path : String) (rules : List Rule) (name : String) : Option Target :=
  (rules.find? fun rule => rule.registers ∧ rule.name = name).map (targetOf path)

theorem lookup_foldl_registered {rules : List Rule} (hpath : path ≠ "#") (hnd : (namesOf rules).Nodup) (k : Key) :
    (rules.foldl (registered path) database).lookup k =
      if k.1 = path then (targetAmong path rules k.2).or (database.lookup k)
      else (database.lookup k).or
        (if k ∈ rules.flatMap (fun rule => librariesOf (textsOf rule)) then some systemLibrary else none) := by
  induction rules generalizing database with
  | nil => simp [targetAmong]
  | cons rule rules ih =>
    obtain ⟨hdup, hnd⟩ := nodup_namesOf_cons.mp hnd
    rw [List.foldl_cons, ih hnd, lookup_registered]
    by_cases hk : k.1 = path
    · have hsystem : k.1 ≠ "#" := hk ▸ hpath
      rw [if_pos hk, if_pos hk]
      by_cases hkey : rule.registers ∧ k = (path, rule.name)
      · obtain ⟨hreg, rfl⟩ := hkey
        have hnone : rules.find? (fun r => r.registers ∧ r.name = rule.name) = none := by
          rw [List.find?_eq_none]
          intro r hr heq
          exact hdup hreg (mem_namesOf.mpr ⟨r, hr, of_decide_eq_true heq⟩)
        rw [if_pos ⟨hreg, rfl⟩, targetAmong, targetAmong, hnone, List.find?_cons_of_pos (by simp [hreg])]
        rfl
      · have hname : ¬ (rule.registers ∧ rule.name = k.2) := fun h => hkey ⟨h.1, Prod.ext hk h.2.symm⟩
        rw [if_neg hkey, lookup_withLibraries_of_ne _ hsystem, targetAmong, targetAmong,
          List.find?_cons_of_neg (by simpa using hname)]
    · have hkey : ¬ (rule.registers ∧ k = (path, rule.name)) := fun heq => hk (congrArg Prod.fst heq.2)
      rw [if_neg hk, if_neg hk, if_neg hkey, lookup_withLibraries, Option.or_assoc, List.flatMap_cons]
      by_cases hlib : k ∈ librariesOf (textsOf rule) <;> simp [hlib]

/-! ## The files that have been read -/

/-- The target that stands under a key once its BUILD file has been read. -/
def declared (files : Files) (k : Key) : Option Target :=
  if k.1 = "#" then some systemLibrary else (files.lookup k.1).bind fun rules => targetAmong k.1 rules k.2

/-- The system libraries that a BUILD file mentions. -/
def mentioned (files : Files) (path : String) : List Key :=
  ((files.lookup path).getD []).flatMap fun rule => librariesOf (textsOf rule)

/-- The database is what the BUILD files that have been read make, in whichever order. -/
structure Sound (files : Files) (s : Loaded) : Prop where
  read : ∀ p ∈ s.processed, p ≠ "#" ∧ normpath p = p ∧ Readable files p
  lookup : ∀ k, s.database.lookup k =
    if k.1 ∈ s.processed then declared files k
    else if ∃ p ∈ s.processed, k ∈ mentioned files p then some systemLibrary else none

theorem sound_init (files : Files) : Sound files {} where
  read p hp := absurd hp List.not_mem_nil
  lookup k := by simp [Finmap.lookup_empty]

theorem mem_mentioned {k : Key} : k ∈ mentioned files path ↔
    ∃ rules rule text, files.lookup path = some rules ∧ rule ∈ rules ∧ text ∈ textsOf rule ∧
      libraryOf text = some k := by
  unfold mentioned
  cases files.lookup path with
  | none => simp
  | some rules => simp [mem_librariesOf]

theorem system_of_mentioned {k : Key} (h : k ∈ mentioned files path) : k.1 = "#" := by
  obtain ⟨_, rule, text, -, -, htext, hlib⟩ := mem_mentioned.mp h
  exact system_of_mem_librariesOf (mem_librariesOf.mpr ⟨text, htext, hlib⟩)

theorem Sound.clean {s : Loaded} (h : Sound files s) : Clean s.database := by
  intro k hk hsystem
  obtain ⟨t, ht⟩ := Finmap.mem_iff.mp hk
  rw [h.lookup] at ht
  split at ht
  · rename_i hp
    exact absurd hsystem (h.read _ hp).1
  · split at ht
    · rename_i hmentioned
      obtain ⟨p, hp, hk⟩ := hmentioned
      obtain ⟨rules, rule, text, hrules, hrule, htext, hlib⟩ := mem_mentioned.mp hk
      obtain ⟨-, -, rules', hrules', hok, -⟩ := h.read p hp
      cases hrules.symm.trans hrules'
      exact (hok rule hrule).libraryOk text htext k hlib
    · cases ht

theorem Sound.declared {s : Loaded} (h : Sound files s) {k : Key} {t : Target} (ht : s.database.lookup k = some t) :
    declared files k = some t := by
  rw [h.lookup] at ht
  split at ht
  · exact ht
  · split at ht
    · rename_i hmentioned
      obtain ⟨p, -, hk⟩ := hmentioned
      rw [LoadTargets.declared, if_pos (system_of_mentioned hk)]
      exact ht
    · cases ht

/-- A target of the database is where its key says. -/
theorem Sound.processed_of_lookup {s : Loaded} (hs : Sound files s) {k : Key} {t : Target}
    (ht : s.database.lookup k = some t) (hsystem : k.1 ≠ "#") : k.1 ∈ s.processed := by
  rw [hs.lookup] at ht
  split at ht
  · assumption
  · split at ht
    · rename_i hm
      obtain ⟨p, -, hp⟩ := hm
      exact absurd (system_of_mentioned hp) hsystem
    · cases ht

theorem Sound.mem_database_iff {s : Loaded} (hs : Sound files s) {k : Key} :
    k ∈ s.database ↔
      (k.1 ∈ s.processed ∧ (LoadTargets.declared files k).isSome) ∨
        (k.1 = "#" ∧ ∃ p ∈ s.processed, k ∈ mentioned files p) := by
  rw [Finmap.mem_iff, hs.lookup, ← Option.isSome_iff_exists]
  by_cases hp : k.1 ∈ s.processed
  · simp [hp, (hs.read _ hp).1]
  · by_cases hm : ∃ p ∈ s.processed, k ∈ mentioned files p
    · have hsystem : k.1 = "#" := by
        obtain ⟨p, -, hkm⟩ := hm
        exact system_of_mentioned hkm
      rw [if_neg hp, if_pos hm]
      exact ⟨fun _ => .inr ⟨hsystem, hm⟩, fun _ => rfl⟩
    · simp [hp, hm]

/-- Reading a directory's BUILD file. -/
theorem loadBuildFile_ok {s s' : Loaded} {sourceDir : String} (hs : Sound files s)
    (h : loadBuildFile files s sourceDir = .ok s') :
    Sound files s' ∧ ∀ p, p ∈ s'.processed ↔ p ∈ s.processed ∨ (p = normpath sourceDir ∧ p ≠ "#") := by
  simp only [loadBuildFile] at h
  split at h
  · rename_i hskip
    cases h
    refine ⟨hs, fun p => ⟨.inl, fun hp => hp.elim id fun hp => ?_⟩⟩
    obtain ⟨rfl, hsystem⟩ := hp
    exact hskip.resolve_right hsystem
  · rename_i hskip
    rw [not_or] at hskip
    obtain ⟨hnew, hsystem⟩ := hskip
    cases hrules : files.lookup (normpath sourceDir) with
    | none =>
      rw [hrules] at h
      cases h
    | some rules =>
      simp only [hrules] at h
      cases hrun : rules.foldlM (register (normpath sourceDir)) s.database with
      | error e =>
        rw [hrun] at h
        cases e <;> cases h
      | ok database =>
        rw [hrun] at h
        cases h
        obtain ⟨hall, hnd, rfl⟩ := (foldlM_register_eq_ok_iff hsystem hs.clean).mp hrun
        have hreadable : Readable files (normpath sourceDir) := ⟨rules, hrules, fun rule hr => (hall rule hr).1, hnd⟩
        refine ⟨⟨fun p hp => ?_, fun k => ?_⟩, fun p => ?_⟩
        · rcases List.mem_cons.mp hp with rfl | hp
          · exact ⟨hsystem, normpath_idem sourceDir, hreadable⟩
          · exact hs.read p hp
        · rw [lookup_foldl_registered hsystem hnd, hs.lookup]
          by_cases hk : k.1 = normpath sourceDir
          · -- nothing of this directory has been registered before
            have hlib : ¬ ∃ p ∈ s.processed, k ∈ mentioned files p := by
              rintro ⟨p, -, hp⟩
              exact hsystem (hk.symm.trans (system_of_mentioned hp))
            rw [if_pos hk, if_neg (hk ▸ hnew), if_neg hlib, if_pos (hk ▸ List.mem_cons_self), Option.or_none,
              LoadTargets.declared, if_neg (hk ▸ hsystem), hk, hrules, Option.bind_some]
          · have hold : k.1 ∈ normpath sourceDir :: s.processed ↔ k.1 ∈ s.processed := by simp [hk]
            have hlibs : rules.flatMap (fun rule => librariesOf (textsOf rule)) =
                mentioned files (normpath sourceDir) := by
              rw [mentioned, hrules, Option.getD_some]
            simp only [hk, if_false, hold, hlibs, List.exists_mem_cons_iff]
            by_cases hp : k.1 ∈ s.processed
            · have hnone : k ∉ mentioned files (normpath sourceDir) := fun hm =>
                (hs.read _ hp).1 (system_of_mentioned hm)
              simp [hp, hnone]
            · by_cases hm : ∃ p ∈ s.processed, k ∈ mentioned files p
              · simp [hp, hm]
              · simp [hp, hm]
        · rw [List.mem_cons]
          constructor
          · rintro (rfl | hp)
            · exact .inr ⟨rfl, hsystem⟩
            · exact .inl hp
          · rintro (hp | ⟨rfl, -⟩)
            · exact .inr hp
            · exact .inl rfl

/-- Whether a BUILD file can be read does not depend on what has been read before. -/
theorem loadBuildFile_iff {s : Loaded} {sourceDir : String} (hs : Sound files s) :
    (∃ s', loadBuildFile files s sourceDir = .ok s') ↔
      normpath sourceDir ≠ "#" → Readable files (normpath sourceDir) := by
  constructor
  · rintro ⟨s', h⟩ hsystem
    obtain ⟨hs', hprocessed⟩ := loadBuildFile_ok hs h
    exact (hs'.read _ ((hprocessed _).mpr (.inr ⟨rfl, hsystem⟩))).2.2
  · intro hread
    simp only [loadBuildFile]
    split
    · exact ⟨s, rfl⟩
    · rename_i hskip
      rw [not_or] at hskip
      obtain ⟨hnew, hsystem⟩ := hskip
      obtain ⟨rules, hrules, hok, hnd⟩ := hread hsystem
      have hfresh : ∀ rule ∈ rules, RuleOk (normpath sourceDir) rule ∧
          (rule.registers → (normpath sourceDir, rule.name) ∉ s.database) := by
        refine fun rule hr => ⟨hok rule hr, fun _ hmem => ?_⟩
        obtain ⟨t, ht⟩ := Finmap.mem_iff.mp hmem
        rw [hs.lookup, if_neg hnew] at ht
        split at ht
        · rename_i hm
          obtain ⟨p, -, hp⟩ := hm
          exact hsystem (system_of_mentioned hp)
        · cases ht
      have hrun := (foldlM_register_eq_ok_iff hsystem hs.clean).mpr ⟨hfresh, hnd, rfl⟩
      simp only [hrules, hrun]
      exact ⟨_, rfl⟩

theorem loadBuildFile_ends {s : Loaded} {sourceDir : String} : loadBuildFile files s sourceDir ≠ .error .running := by
  simp only [loadBuildFile]
  split
  · nofun
  · cases files.lookup (normpath sourceDir) with
    | none => nofun
    | some rules =>
      simp only
      cases rules.foldlM (register (normpath sourceDir)) s.database with
      | error e => cases e <;> nofun
      | ok database => nofun

end LoadTargets

end PredictorService.BuildTools
