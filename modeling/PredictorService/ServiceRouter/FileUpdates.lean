/-
  PredictorService.ServiceRouter.FileUpdates — updates of a static server file
  (service_router/registry.cc: `FileRegistry::discover`).

  `discover` reads the file of a service when its modification time is another than the one
  it has noted, and notifies the subscriber of the servers. It notes the time before it
  opens the file, and the time is in whole seconds. So an update is lost when the open
  fails, or when the file is written twice within the second in which it was read: no later
  call reads the file again.

  What matters of a run for one service is a poller with a mark (`Poll`), over any kind of
  content. `view_apply` says that the registry is one.
  - `Poll.settled_step` says which steps lose nothing, `Poll.shows_iff` that a state in which
    nothing is lost is one in which a poll shows the content.
  - `updates_kept_iff`: in a run no update is lost iff each step loses none (`Safe`).
-/

import PredictorService.Lib.FinMap
import PredictorService.Lib.Runs
import PredictorService.ServiceRouter.FileRegistry

namespace PredictorService.ServiceRouter.FileRegistry

open PredictorService.Lib

/-! ## A poller with a mark -/

/-- What is to be read and when it was written, the time noted, and what was shown last. -/
structure Poll (C L : Type) where
  current : Option (C × Int)
  mark : Int
  shown : Option L

namespace Poll

inductive Event (C : Type) where
  | write (content : C) (time : Int)
  | poll (opens : Bool)

variable {C L : Type} [DecidableEq L] (parse : C → L) (empty : L)

def step (s : Poll C L) : Event C → Poll C L
  | .write content time => { s with current := some (content, time) }
  | .poll opens =>
    match s.current with
    | none => s
    | some (content, time) =>
      if time = s.mark then s
      else
        { s with
          mark := time
          shown := if opens = true ∧ parse content ≠ empty then some (parse content) else s.shown }

/-- Nothing is to be shown, or it is shown. -/
def Seen (s : Poll C L) (content : C) : Prop := parse content = empty ∨ s.shown = some (parse content)

/-- What the mark says is read was seen. -/
def Settled (s : Poll C L) : Prop := ∀ content time, s.current = some (content, time) → time = s.mark → Seen parse empty s content

/-- A write under the time noted, and a poll that cannot open what is new, lose what was
    not seen already. -/
def Safe (s : Poll C L) : Event C → Prop
  | .write content time => time = s.mark → Seen parse empty s content
  | .poll opens => opens = false → ∀ content time, s.current = some (content, time) → time ≠ s.mark → Seen parse empty s content

variable {parse empty} {s : Poll C L}

theorem settled_step (h : Settled parse empty s) (e : Event C) : Settled parse empty (step parse empty s e) ↔ Safe parse empty s e := by
  cases e with
  | write content time =>
    constructor
    · intro hnew
      exact hnew content time rfl
    · intro hsafe c t hcur
      cases hcur
      exact hsafe
  | poll opens =>
    unfold step Safe
    cases hcur : s.current with
    | none =>
      simp only
      exact iff_of_true h (fun _ c t hc => by cases hc)
    | some ct =>
      obtain ⟨content, time⟩ := ct
      simp only
      by_cases hmark : time = s.mark
      · rw [if_pos hmark]
        refine iff_of_true h (fun _ c t hc hne => ?_)
        cases hc
        exact absurd hmark hne
      · rw [if_neg hmark]
        by_cases hshow : opens = true ∧ parse content ≠ empty
        · rw [if_pos hshow]
          refine iff_of_true (fun c t hc _ => ?_) (fun hno => by rw [hshow.1] at hno; cases hno)
          cases hc
          exact .inr rfl
        · rw [if_neg hshow]
          constructor
          · intro hnew _ c t hc _
            cases hc
            exact hnew content time rfl rfl
          · intro hsafe c t hc _
            cases hc
            by_cases hopens : opens = true
            · exact .inl (not_not.mp fun hne => hshow ⟨hopens, hne⟩)
            · exact hsafe (by simpa using hopens) content time rfl hmark

/-- A poll that can open what there is shows it, now and until something is written. -/
def Shows (parse : C → L) (empty : L) (s : Poll C L) : Prop :=
  ∀ later : List Bool, ∀ content time,
    (later.foldl (fun s opens => step parse empty s (.poll opens)) (step parse empty s (.poll true))).current =
        some (content, time) →
      parse content ≠ empty →
      (later.foldl (fun s opens => step parse empty s (.poll opens)) (step parse empty s (.poll true))).shown =
        some (parse content)

/-- A poll at the time noted does nothing. -/
theorem step_poll_of_mark {content : C} {time : Int} (hcur : s.current = some (content, time)) (hmark : time = s.mark)
    (opens : Bool) : step parse empty s (.poll opens) = s := by
  simp only [step, hcur, if_pos hmark]

theorem step_poll_of_ne {content : C} {time : Int} (hcur : s.current = some (content, time)) (hmark : time ≠ s.mark)
    (opens : Bool) :
    step parse empty s (.poll opens) =
      { s with
        mark := time
        shown := if opens = true ∧ parse content ≠ empty then some (parse content) else s.shown } := by
  simp only [step, hcur, if_neg hmark]

theorem foldl_poll_of_mark {content : C} {time : Int} (hcur : s.current = some (content, time)) (hmark : time = s.mark)
    (later : List Bool) : later.foldl (fun s opens => step parse empty s (.poll opens)) s = s := by
  induction later with
  | nil => rfl
  | cons opens later ih => rw [List.foldl_cons, step_poll_of_mark hcur hmark, ih]

theorem current_poll (s : Poll C L) (opens : Bool) : (step parse empty s (.poll opens)).current = s.current := by
  simp only [step]
  split
  · rfl
  · split
    · rfl
    · rfl

theorem current_foldl_poll (s : Poll C L) (later : List Bool) :
    (later.foldl (fun s opens => step parse empty s (.poll opens)) s).current = s.current := by
  induction later generalizing s with
  | nil => rfl
  | cons opens later ih => rw [List.foldl_cons, ih, current_poll]

theorem mark_poll {content : C} {time : Int} (hcur : s.current = some (content, time)) (opens : Bool) :
    time = (step parse empty s (.poll opens)).mark := by
  simp only [step, hcur]
  split
  · assumption
  · rfl

theorem shows_iff : Shows parse empty s ↔ Settled parse empty s := by
  constructor
  · intro hshows content time hcur hmark
    by_cases hempty : parse content = empty
    · exact .inl hempty
    · have hshow := hshows [] content time
      simp only [List.foldl_nil, step_poll_of_mark hcur hmark] at hshow
      exact .inr (hshow hcur hempty)
  · intro hsettled later content time hcur hne
    -- the content never changes, and after the first poll neither does anything else
    have hcur' : s.current = some (content, time) := by rwa [current_foldl_poll, current_poll] at hcur
    have hfirst : (step parse empty s (.poll true)).current = some (content, time) := by rw [current_poll, hcur']
    rw [foldl_poll_of_mark hfirst (mark_poll hcur' true)]
    by_cases hmark : time = s.mark
    · rw [step_poll_of_mark hcur' hmark]
      exact (hsettled content time hcur' hmark).resolve_left hne
    · rw [step_poll_of_ne hcur' hmark]
      exact if_pos ⟨rfl, hne⟩

end Poll

/-! ## The registry -/

structure St where
  /-- The file system. -/
  files : FinMap String File := ∅
  fileReaders : FinMap String FileServerReader := ∅
  serviceSubscribers : Finset String := ∅
  /-- What subscribers were notified of, latest first. -/
  notified : List (String × List Server) := []

def registerServersFromFile (s : St) (serviceName filePath : String) : St :=
  { s with fileReaders := s.fileReaders.insert serviceName { serviceName, filePath } }

def subscribe (s : St) (serviceName : String) : St :=
  { s with serviceSubscribers := insert serviceName s.serviceSubscribers }

/-- `opens` says whether the file can be opened in this call. -/
def discover (s : St) (serviceName : String) (opens : Bool) : St :=
  match s.fileReaders.lookup serviceName with
  | none => s
  | some reader =>
    let (ret, serverList, reader) := reader.getServers (s.files.lookup reader.filePath) opens []
    let s := { s with fileReaders := s.fileReaders.insert serviceName reader }
    if ret = false ∨ serverList = [] then s
    else if serviceName ∈ s.serviceSubscribers then { s with notified := (serviceName, serverList) :: s.notified }
    else s

inductive Event where
  /-- Someone writes a file. -/
  | write (path : String) (content : List Char) (mtime : Int)
  | discover (serviceName : String) (opens : Bool)

def apply (s : St) : Event → St
  | .write path content mtime => { s with files := s.files.insert path ⟨content, mtime⟩ }
  | .discover serviceName opens => discover s serviceName opens

/-- A service with its file and its subscriber. -/
def init (serviceName filePath : String) : St := subscribe (registerServersFromFile {} serviceName filePath) serviceName

/-- What a file parses to. -/
def parseFile (serviceName : String) (content : List Char) : List Server :=
  readServers serviceName (content.length + 1) ⟨content, false⟩ []

def lastNotified (s : St) (serviceName : String) : Option (List Server) := s.notified.lookup serviceName

/-- The time that the service's reader has noted. -/
def markOf (s : St) (serviceName : String) : Int := ((s.fileReaders.lookup serviceName).map (·.lastModifiedTime)).getD 0

variable (serviceName filePath : String)

/-- The service is read from the file, and someone has subscribed to it. -/
def Watched (s : St) : Prop :=
  s.fileReaders.lookup serviceName = some ⟨serviceName, filePath, markOf s serviceName⟩ ∧
    serviceName ∈ s.serviceSubscribers

/-- What the registry is to the service. -/
def view (s : St) : Poll (List Char) (List Server) where
  current := (s.files.lookup filePath).map fun file => (file.content, file.mtime)
  mark := markOf s serviceName
  shown := lastNotified s serviceName

/-- What an event is to it. -/
def eventOf : Event → Option (Poll.Event (List Char))
  | .write path content mtime => if path = filePath then some (.write content mtime) else none
  | .discover name opens => if name = serviceName then some (.poll opens) else none

variable {serviceName filePath}

theorem watched_init : Watched serviceName filePath (init serviceName filePath) := by
  unfold Watched init subscribe registerServersFromFile markOf
  simp

/-- A call for another service. -/
theorem discover_other {s : St} {name : String} (hname : name ≠ serviceName) (opens : Bool) :
    (discover s name opens).fileReaders.lookup serviceName = s.fileReaders.lookup serviceName ∧
      (discover s name opens).serviceSubscribers = s.serviceSubscribers ∧ (discover s name opens).files = s.files ∧
      lastNotified (discover s name opens) serviceName = lastNotified s serviceName := by
  have hlookup : ∀ reader, (s.fileReaders.insert name reader).lookup serviceName = s.fileReaders.lookup serviceName := by
    intro reader
    rw [FinMap.lookup_insert_ite, if_neg (Ne.symm hname)]
  have hlast : ∀ list, ((name, list) :: s.notified).lookup serviceName = s.notified.lookup serviceName := by
    intro list
    rw [List.lookup_cons, beq_eq_false_iff_ne.mpr (Ne.symm hname)]
  unfold discover
  split
  · exact ⟨rfl, rfl, rfl, rfl⟩
  · rename_i reader hreader
    simp only
    split
    · exact ⟨hlookup _, rfl, rfl, rfl⟩
    · split
      · exact ⟨hlookup _, rfl, rfl, hlast _⟩
      · exact ⟨hlookup _, rfl, rfl, rfl⟩

/-- What a call leaves, by the time and the notification it comes to. -/
theorem view_after {s : St} (h : Watched serviceName filePath s) (mark : Int) (notified : List (String × List Server)) :
    Watched serviceName filePath
        { s with fileReaders := s.fileReaders.insert serviceName ⟨serviceName, filePath, mark⟩, notified } ∧
      view serviceName filePath
          { s with fileReaders := s.fileReaders.insert serviceName ⟨serviceName, filePath, mark⟩, notified } =
        { view serviceName filePath s with mark := mark, shown := notified.lookup serviceName } := by
  have hmark : markOf { s with fileReaders := s.fileReaders.insert serviceName ⟨serviceName, filePath, mark⟩, notified }
      serviceName = mark := by
    simp [markOf]
  refine ⟨⟨?_, h.2⟩, ?_⟩
  · rw [hmark]
    exact Finmap.lookup_insert _
  · unfold view
    rw [hmark]
    rfl

/-- A call for the service is a poll. -/
theorem view_discover {s : St} (h : Watched serviceName filePath s) (opens : Bool) :
    Watched serviceName filePath (discover s serviceName opens) ∧
      view serviceName filePath (discover s serviceName opens) =
        Poll.step (parseFile serviceName) [] (view serviceName filePath s) (.poll opens) := by
  have hsame := view_after h (markOf s serviceName) s.notified
  cases hfile : s.files.lookup filePath with
  | none =>
    have hcur : (view serviceName filePath s).current = none := by simp [view, hfile]
    have hdiscover : discover s serviceName opens =
        { s with fileReaders := s.fileReaders.insert serviceName ⟨serviceName, filePath, markOf s serviceName⟩ } := by
      simp [discover, h.1, hfile, FileServerReader.getServers, FileServerReader.checkModified]
    rw [hdiscover, Poll.step]
    simp only [hcur]
    exact hsame
  | some file =>
    have hcur : (view serviceName filePath s).current = some (file.content, file.mtime) := by simp [view, hfile]
    by_cases hmark : file.mtime = markOf s serviceName
    · have hdiscover : discover s serviceName opens =
          { s with fileReaders := s.fileReaders.insert serviceName ⟨serviceName, filePath, markOf s serviceName⟩ } := by
        simp [discover, h.1, hfile, FileServerReader.getServers, FileServerReader.checkModified, hmark]
      rw [hdiscover, Poll.step_poll_of_mark hcur hmark]
      exact hsame
    · by_cases hshow : opens = true ∧ parseFile serviceName file.content ≠ []
      · obtain ⟨rfl, hne⟩ := hshow
        have hdiscover : discover s serviceName true =
            { s with
              fileReaders := s.fileReaders.insert serviceName ⟨serviceName, filePath, file.mtime⟩
              notified := (serviceName, parseFile serviceName file.content) :: s.notified } := by
          simp only [parseFile] at hne ⊢
          simp [discover, h.1, hfile, FileServerReader.getServers, FileServerReader.checkModified, hmark, hne, h.2]
        obtain ⟨hwatched, hview⟩ := view_after h file.mtime ((serviceName, parseFile serviceName file.content) :: s.notified)
        rw [hdiscover]
        refine ⟨hwatched, hview.trans ?_⟩
        rw [Poll.step_poll_of_ne hcur hmark, if_pos ⟨rfl, hne⟩, List.lookup_cons_self]
      · have hdiscover : discover s serviceName opens =
            { s with fileReaders := s.fileReaders.insert serviceName ⟨serviceName, filePath, file.mtime⟩ } := by
          cases opens with
          | false => simp [discover, h.1, hfile, FileServerReader.getServers, FileServerReader.checkModified, hmark]
          | true =>
            have hempty : readServers serviceName (file.content.length + 1) ⟨file.content, false⟩ [] = [] :=
              not_not.mp fun hne => hshow ⟨rfl, hne⟩
            simp [discover, h.1, hfile, FileServerReader.getServers, FileServerReader.checkModified, hmark, hempty]
        obtain ⟨hwatched, hview⟩ := view_after h file.mtime s.notified
        rw [hdiscover]
        refine ⟨hwatched, hview.trans ?_⟩
        rw [Poll.step_poll_of_ne hcur hmark, if_neg hshow]
        rfl

/-- The registry is a poller to the service: each event is one of its own, or nothing. -/
theorem view_apply {s : St} (h : Watched serviceName filePath s) (e : Event) :
    Watched serviceName filePath (apply s e) ∧
      view serviceName filePath (apply s e) =
        ((eventOf serviceName filePath e).map (Poll.step (parseFile serviceName) [] (view serviceName filePath s))).getD
          (view serviceName filePath s) := by
  cases e with
  | write path content mtime =>
    refine ⟨h, ?_⟩
    unfold eventOf view
    simp only [apply, FinMap.lookup_insert_ite]
    by_cases hpath : path = filePath
    · subst hpath
      simp only [if_true, Option.map_some, Option.getD_some]
      rfl
    · rw [if_neg hpath, if_neg (Ne.symm hpath)]
      rfl
  | discover name opens =>
    by_cases hname : name = serviceName
    · subst hname
      simp only [apply, eventOf, if_true, Option.map_some, Option.getD_some]
      exact view_discover h opens
    · obtain ⟨hreader, hsub, hfiles, hlast⟩ := discover_other hname opens
      have hmark : markOf (discover s name opens) serviceName = markOf s serviceName := by rw [markOf, hreader, markOf]
      simp only [apply, eventOf, if_neg hname, Option.map_none, Option.getD_none]
      refine ⟨⟨by rw [hreader, hmark]; exact h.1, by rw [hsub]; exact h.2⟩, ?_⟩
      unfold view
      rw [hmark, hfiles, hlast]

/-! ## Which runs lose nothing -/

/-- The file of the service is written. -/
def Writes (filePath : String) : Event → Prop
  | .write path _ _ => path = filePath
  | .discover _ _ => False

/-- A call that can open the file is made, and the file is not written again: where it parses
    to some servers, these are what the subscriber was last notified of. -/
def UpdateKept (serviceName filePath : String) (s : St) : Prop :=
  ∀ later : List Event, (∀ e ∈ later, ¬ Writes filePath e) → ∀ file,
    (later.foldl apply (apply s (.discover serviceName true))).files.lookup filePath = some file →
      parseFile serviceName file.content ≠ [] →
      lastNotified (later.foldl apply (apply s (.discover serviceName true))) serviceName =
        some (parseFile serviceName file.content)

/-- The servers of a content are none, or were the last to be notified of. -/
def Known (serviceName : String) (s : St) (content : List Char) : Prop :=
  parseFile serviceName content = [] ∨ lastNotified s serviceName = some (parseFile serviceName content)

/-- A write under the modification time that the reader has noted, and an open that fails
    for a file that has another one, bring nothing that is not known. -/
def Safe (serviceName filePath : String) (s : St) : Event → Prop
  | .write path content mtime => path = filePath → mtime = markOf s serviceName → Known serviceName s content
  | .discover name opens => name = serviceName → opens = false →
      ∀ file, s.files.lookup filePath = some file → file.mtime ≠ markOf s serviceName → Known serviceName s file.content

theorem safe_iff {s : St} {e : Event} :
    Safe serviceName filePath s e ↔
      ∀ e', eventOf serviceName filePath e = some e' →
        Poll.Safe (parseFile serviceName) [] (view serviceName filePath s) e' := by
  cases e with
  | write path content mtime =>
    simp only [Safe, eventOf]
    by_cases hpath : path = filePath
    · rw [if_pos hpath]
      refine ⟨fun h e' he' => ?_, fun h _ => h _ rfl⟩
      cases he'
      exact h hpath
    · rw [if_neg hpath]
      exact iff_of_true (fun h => absurd h hpath) (fun e' he' => by cases he')
  | discover name opens =>
    simp only [Safe, eventOf]
    by_cases hname : name = serviceName
    · rw [if_pos hname]
      constructor
      · intro h e' he'
        cases he'
        intro hopens content time hcur hmark
        obtain ⟨file, hfile, heq⟩ := Option.map_eq_some_iff.mp hcur
        cases heq
        exact h hname hopens file hfile hmark
      · intro h _ hopens file hfile hmark
        exact h _ rfl hopens file.content file.mtime (by simp [view, hfile]) hmark
    · rw [if_neg hname]
      exact iff_of_true (fun h => absurd h hname) (fun e' he' => by cases he')

/-- Events without a write of the file are polls. -/
theorem view_later {s : St} (h : Watched serviceName filePath s) (later : List Event)
    (hlater : ∀ e ∈ later, ¬ Writes filePath e) :
    ∃ polls : List Bool, view serviceName filePath (later.foldl apply s) =
      polls.foldl (fun s opens => Poll.step (parseFile serviceName) [] s (.poll opens)) (view serviceName filePath s) := by
  induction later generalizing s with
  | nil => exact ⟨[], rfl⟩
  | cons e later ih =>
    obtain ⟨hwatched, hview⟩ := view_apply h e
    obtain ⟨polls, hpolls⟩ := ih hwatched fun e' he' => hlater e' (List.mem_cons_of_mem _ he')
    rw [List.foldl_cons, hpolls, hview]
    have he := hlater e List.mem_cons_self
    cases e with
    | write path content mtime =>
      simp only [eventOf, if_neg (show ¬ path = filePath from he)]
      exact ⟨polls, rfl⟩
    | discover name opens =>
      simp only [eventOf]
      by_cases hname : name = serviceName
      · rw [if_pos hname]
        exact ⟨opens :: polls, rfl⟩
      · rw [if_neg hname]
        exact ⟨polls, rfl⟩

theorem view_polls {s : St} (h : Watched serviceName filePath s) (polls : List Bool) :
    view serviceName filePath ((polls.map (Event.discover serviceName)).foldl apply s) =
      polls.foldl (fun s opens => Poll.step (parseFile serviceName) [] s (.poll opens)) (view serviceName filePath s) := by
  induction polls generalizing s with
  | nil => rfl
  | cons opens polls ih =>
    obtain ⟨hwatched, hview⟩ := view_discover h opens
    rw [List.map_cons, List.foldl_cons, List.foldl_cons, ← hview]
    exact ih hwatched

theorem updateKept_iff {s : St} (h : Watched serviceName filePath s) :
    UpdateKept serviceName filePath s ↔ Poll.Settled (parseFile serviceName) [] (view serviceName filePath s) := by
  rw [← Poll.shows_iff]
  obtain ⟨hwatched, hview⟩ := view_discover h true
  constructor
  · intro hkept polls content time hcur hne
    have hpolls := view_polls hwatched polls
    rw [hview] at hpolls
    rw [← hpolls] at hcur ⊢
    obtain ⟨file, hfile, heq⟩ := Option.map_eq_some_iff.mp hcur
    cases heq
    refine hkept (polls.map (Event.discover serviceName)) (fun e he => ?_) file hfile hne
    obtain ⟨opens, -, rfl⟩ := List.mem_map.mp he
    exact id
  · intro hshows later hlater file hfile hne
    obtain ⟨polls, hpolls⟩ := view_later hwatched later hlater
    rw [hview] at hpolls
    have hshown := hshows polls file.content file.mtime
    rw [← hpolls] at hshown
    exact hshown (Option.map_eq_some_iff.mpr ⟨file, hfile, rfl⟩) hne

theorem watched_foldl {s : St} (h : Watched serviceName filePath s) (es : List Event) :
    Watched serviceName filePath (es.foldl apply s) := by
  induction es generalizing s with
  | nil => exact h
  | cons e es ih => exact ih (view_apply h e).1

/-- In every state of a run a call shows the file as it is iff no step of the run writes the
    file under the time that the reader has noted, nor fails to open a file that is new to
    it, with servers other than those last notified of. -/
theorem updates_kept_iff (serviceName filePath : String) (es : List Event) :
    (∀ es₁ es₂, es = es₁ ++ es₂ → UpdateKept serviceName filePath (es₁.foldl apply (init serviceName filePath))) ↔
      Meets (fun s e => some (apply s e)) (Safe serviceName filePath) (init serviceName filePath) es := by
  have hrun : ∀ es : List Event, run (fun s e => some (apply s e)) (init serviceName filePath) es =
      some (es.foldl apply (init serviceName filePath)) := fun es => List.foldlM_pure
  have hsettled : Poll.Settled (parseFile serviceName) [] (view serviceName filePath (init serviceName filePath)) := by
    intro content time hcur
    cases hcur
  have hiff := prefixes_iff_meets (fun s e => some (apply s e)) (Safe serviceName filePath) (Watched serviceName filePath)
    (fun s => Poll.Settled (parseFile serviceName) [] (view serviceName filePath s))
    (fun s t e h ht => by cases ht; exact (view_apply h e).1)
    (fun s t e h hgood ht => by
      cases ht
      rw [(view_apply h e).2, safe_iff]
      cases he : eventOf serviceName filePath e with
      | none => exact iff_of_true hgood (fun e' he' => by cases he')
      | some e' =>
        refine (Poll.settled_step hgood e').trans ⟨fun hsafe e'' he'' => ?_, fun hsafe => hsafe e' rfl⟩
        cases he''
        exact hsafe)
    watched_init hsettled (hrun es)
  rw [← hiff]
  constructor
  · intro hall es₁ es₂ u hes hu
    rw [hrun] at hu
    cases hu
    exact (updateKept_iff (watched_foldl watched_init es₁)).mp (hall es₁ es₂ hes)
  · intro hall es₁ es₂ hes
    exact (updateKept_iff (watched_foldl watched_init es₁)).mpr (hall es₁ es₂ _ hes (hrun es₁))

/-- The file is written, the first call cannot open it, and the next one does not read it. -/
def failedOpen : List Event :=
  [.write "/data/ctr" staticFile.content 1600000000, .discover "ctr" false]

theorem a_failed_open_loses_the_update :
    lastNotified (apply (failedOpen.foldl apply (init "ctr" "/data/ctr")) (.discover "ctr" true)) "ctr" = none ∧
      ¬ UpdateKept "ctr" "/data/ctr" (failedOpen.foldl apply (init "ctr" "/data/ctr")) := by
  have hnone : lastNotified (apply (failedOpen.foldl apply (init "ctr" "/data/ctr")) (.discover "ctr" true)) "ctr" =
      none := by
    decide +kernel
  have hfile : (apply (failedOpen.foldl apply (init "ctr" "/data/ctr")) (.discover "ctr" true)).files.lookup "/data/ctr" =
      some ⟨staticFile.content, 1600000000⟩ := by
    decide +kernel
  have hne : parseFile "ctr" staticFile.content ≠ [] := by decide +kernel
  refine ⟨hnone, fun hkept => ?_⟩
  have hlast := hkept [] (by simp) ⟨staticFile.content, 1600000000⟩ hfile hne
  rw [List.foldl_nil, hnone] at hlast
  cases hlast

end PredictorService.ServiceRouter.FileRegistry
