/-
  PredictorService.Server.PostBody — the body of a POST request, from the chunks that arrive
  to the JSON parser (service_framework/http/http_server_manager.cc: `HttpHandler`;
  predictor/util/predictor_util.cc: `parseIOBuf`; the POST handlers of
  predictor/server/http_service/http_service.cc).

  A chunk is a `folly::IOBuf`, itself a circular chain of buffers. `onBody` keeps the first
  one and splices every other in behind it (`IOBuf::prependChain`), so what `parseIOBuf`
  walks over is one ring with the buffers of all chunks in order (`received_ring`), and the
  walk ends with all bytes. Without a chunk there is no buffer, and `parseIOBuf` reads
  through the null pointer: a request is read whole and answered iff it had a chunk
  (`read_whole_iff`).

  `parseJson` is outside, and what a handler does with the parsed value is a parameter, so
  the results hold for any of both. A null pointer that is read ends the process; it is no
  exception, so no `catch` sees it. The headers of a response, metrics and logs are left
  out.
-/

import PredictorService.Lib.Ring

namespace PredictorService.HttpServer

open PredictorService.Lib.Ring

variable {A S Json : Type}

/-! ## The body -/

/-- `p->data()` up to `p->length()`, and the links of the chain. -/
abbrev IOBufs (A : Type) := Heap A UInt8

/-- What comes of reading a body. -/
inductive Read where
  /-- A null pointer was dereferenced. -/
  | null
  /-- The loop is still running. -/
  | running
  | body (text : List UInt8)
  deriving DecidableEq, Repr

/-- `fuel` is the number of rounds the loop has had. -/
def parseIOBuf [DecidableEq A] (h : IOBufs A) (fuel : Nat) (buf : Option A) : Read :=
  match buf with
  | none => .null
  | some p =>
    match walk h p fuel p [] with
    | none => .running
    | some body => .body body

/-! ## The handler -/

inductive HTTPMethod where
  | GET
  | POST
  | OPTIONS
  | DELETE
  | HEAD
  | CONNECT
  | PUT
  | TRACE
  | PATCH
  | SUB
  | PUB
  | UNSUB
  deriving DecidableEq, Repr

structure HTTPMessage where
  path : String
  url : String
  /-- None for a method that proxygen does not know. -/
  method : Option HTTPMethod
  deriving DecidableEq, Repr

/-- What a request ends with. -/
inductive Outcome (S : Type) where
  | null
  | running
  /-- `processErrorResponse`. -/
  | error (code : Nat) (reason path : String)
  /-- A result with its code and message, and the state of the service after it. -/
  | answered (s : S) (code : Int) (msg : String)
  deriving DecidableEq, Repr

/-- What a callback ends with: an outcome, or an exception. -/
abbrev Callback (A S : Type) := IOBufs A → Nat → Option A → S → Option (Outcome S)

structure Location (A S : Type) where
  method : HTTPMethod
  callback : Callback A S

structure HttpHandler (A : Type) where
  body : Option A := none
  isValid : Bool := false
  deriving DecidableEq, Repr

variable [DecidableEq A]

def onRequest (locations : String → Option (Location A S)) (handler : HttpHandler A) (header : HTTPMessage) :
    HttpHandler A × Option (Outcome S) :=
  match locations header.path with
  | none => (handler, some (.error 404 "Not Found" header.path))
  | some location =>
    if some location.method ≠ header.method then (handler, some (.error 404 "Not Found" header.path))
    else ({ handler with isValid := true }, none)

/-- `IOBuf::prependChain`. -/
def prependChain (h : IOBufs A) (this other : A) : IOBufs A := splice h this other

def onBody (h : IOBufs A) (handler : HttpHandler A) (body : A) : IOBufs A × HttpHandler A :=
  match handler.body with
  | some first => (prependChain h first body, handler)
  | none => (h, { handler with body := some body })

/-- None when it sends nothing. -/
def onEOM (locations : String → Option (Location A S)) (h : IOBufs A) (fuel : Nat) (handler : HttpHandler A)
    (header : HTTPMessage) (s : S) : Option (Outcome S) :=
  if handler.isValid = false then none
  else
    match locations header.path with
    | none => some (.error 404 "Not Found" header.path)
    | some location =>
      match location.callback h fuel handler.body s with
      | some outcome => some outcome
      | none => some (.error 503 "Bad Gateway" header.url)

/-- The chunks of a request, one after another. -/
def receive (h : IOBufs A) (handler : HttpHandler A) (chunks : List A) : IOBufs A × HttpHandler A :=
  chunks.foldl (fun s body => onBody s.1 s.2 body) (h, handler)

/-- A whole request. After an error nothing more is sent. -/
def serve (locations : String → Option (Location A S)) (h : IOBufs A) (fuel : Nat) (header : HTTPMessage)
    (chunks : List A) (s : S) : Option (Outcome S) :=
  match onRequest locations {} header with
  | (_, some error) => some error
  | (handler, none) =>
    let (h, handler) := receive h handler chunks
    onEOM locations h fuel handler header s

/-! ## The POST handlers -/

/-- The handlers that read a body with `parseIOBuf`. -/
inductive Post where
  | loadAndRegister
  | updateDowngradePercent
  | setStressParams
  | updateGlobalModelServiceMap
  deriving DecidableEq, Repr

def Post.location : Post → String
  | .loadAndRegister => "/load_and_register"
  | .updateDowngradePercent => "/update_downgrade_percent"
  | .setStressParams => "/set_stress_params"
  | .updateGlobalModelServiceMap => "/update_global_model_service_map"

def Post.invalid : Post → String
  | .loadAndRegister => "loadAndRegister: invalid POST params (probably invalid json)"
  | .updateDowngradePercent => "updateDowngradePercent: invalid POST params (probably invalid json)"
  | .setStressParams => "setStressParams: invalid POST params (probably invalid json)"
  | .updateGlobalModelServiceMap => "updateGlobalModelServiceMap: invalid POST params (probably invalid json)"

def Post.success : Post → String
  | .loadAndRegister => "loadAndRegister success"
  | .updateDowngradePercent => "update downgrade_percent success"
  | .setStressParams => "setStressParams success"
  | .updateGlobalModelServiceMap => "update global_model_service_map success"

/-- What is thrown in the `try` and is no `std::exception`: two of the handlers catch it. -/
def Post.unknown : Post → Option String
  | .loadAndRegister => some "loadAndRegister: invalid POST params (UNKNOW ERROR)"
  | .setStressParams => some "setStressParams: invalid POST params (UNKNOW ERROR)"
  | .updateDowngradePercent | .updateGlobalModelServiceMap => none

/-- What a handler makes of the value: the state after it, an exception of either kind in the
    `try`, or one after it. -/
inductive Used (S : Type) where
  | done (s : S)
  | invalid
  | unknown
  | thrown
  deriving DecidableEq, Repr

/-- `parseJson` throws a `std::exception` where it is `none`. -/
structure Rest (S Json : Type) where
  parseJson : List UInt8 → Option Json
  use : Post → Json → S → Used S

/-- From the text on; `none` where an exception leaves the handler. -/
def Post.answer (rest : Rest S Json) (post : Post) (text : List UInt8) (s : S) : Option (Outcome S) :=
  match (rest.parseJson text).elim .invalid (rest.use post · s) with
  | .done s => some (.answered s 0 post.success)
  | .invalid => some (.answered s (-1) post.invalid)
  | .unknown => post.unknown.map (.answered s (-1))
  | .thrown => none

def Post.process (rest : Rest S Json) (post : Post) : Callback A S := fun h fuel buf s =>
  match parseIOBuf h fuel buf with
  | .null => some .null
  | .running => some .running
  | .body text => post.answer rest text s

/-- What a request with that text ends with. -/
def Post.outcome (rest : Rest S Json) (post : Post) (header : HTTPMessage) (text : List UInt8) (s : S) : Outcome S :=
  (post.answer rest text s).getD (.error 503 "Bad Gateway" header.url)

/-- The locations of these handlers. -/
def postLocations (rest : Rest S Json) (path : String) : Option (Location A S) :=
  ([.loadAndRegister, .updateDowngradePercent, .setStressParams, .updateGlobalModelServiceMap].find?
    (fun post : Post => post.location == path)).map fun post => ⟨.POST, post.process rest⟩

theorem postLocations_location (rest : Rest S Json) (post : Post) :
    postLocations (A := A) rest post.location = some ⟨.POST, post.process rest⟩ := by
  cases post <;> rfl

/-! ## What is read -/

/-- The bytes of a chunk, given with the buffers of its chain. -/
def bytesOf (h : IOBufs A) (chunk : A × List A) : List UInt8 := chunk.2.flatMap h.data

variable {h : IOBufs A} {chunks : List (A × List A)}

theorem receive_first (h : IOBufs A) (first : A) (valid : Bool) (rest : List (A × List A)) :
    receive h ⟨some first, valid⟩ (rest.map (·.1)) =
      (rest.foldl (fun h r => splice h first r.1) h, ⟨some first, valid⟩) := by
  induction rest generalizing h with
  | nil => rfl
  | cons r rest ih => exact ih (splice h first r.1)

/-- The first chunk's ring has the buffers of all of them, in order of arrival. -/
theorem received_ring {chunk : A × List A} (hc : Rings h (chunk :: chunks)) (valid : Bool) :
    ∃ h', receive h ⟨none, valid⟩ ((chunk :: chunks).map (·.1)) = (h', ⟨some chunk.1, valid⟩) ∧ h'.data = h.data ∧
      IsRing h' chunk.1 (chunk.2 ++ chunks.flatMap (·.2)) := by
  obtain ⟨hrings, hpair⟩ := hc
  rw [List.pairwise_cons] at hpair
  have hrest : Rings h chunks := ⟨fun r hr => hrings r (List.mem_cons_of_mem _ hr), hpair.2⟩
  refine ⟨_, receive_first h chunk.1 valid chunks, splice_all_data h chunk.1 chunks, ?_⟩
  exact (hrings chunk List.mem_cons_self).splice_all hrest hpair.1

theorem parseIOBuf_received {chunk : A × List A} (hc : Rings h (chunk :: chunks)) (valid : Bool) {fuel : Nat}
    (hfuel : ((chunk :: chunks).flatMap (·.2)).length ≤ fuel) :
    parseIOBuf (receive h ⟨none, valid⟩ ((chunk :: chunks).map (·.1))).1 fuel
        (receive h ⟨none, valid⟩ ((chunk :: chunks).map (·.1))).2.body =
      .body ((chunk :: chunks).flatMap (bytesOf h)) := by
  obtain ⟨h', hreceive, hdata, hring⟩ := received_ring hc valid
  have hwalk := hring.walk (by simpa using hfuel)
  rw [hreceive]
  simp only [parseIOBuf, hwalk, hdata]
  simp only [List.flatMap_append, List.flatMap_assoc, List.flatMap_cons]
  rfl

/-- A POST to the location of a handler gets to it, with all the chunks. -/
theorem serve_post (rest : Rest S Json) (post : Post) (h : IOBufs A) (fuel : Nat) {header : HTTPMessage}
    (hpath : header.path = post.location) (hmethod : header.method = some .POST) (chunks : List A) (s : S) :
    serve (postLocations rest) h fuel header chunks s =
      some ((post.process rest (receive h ⟨none, true⟩ chunks).1 fuel (receive h ⟨none, true⟩ chunks).2.body s).getD
        (.error 503 "Bad Gateway" header.url)) := by
  have hreceive : ∀ chunks : List A, ∀ h : IOBufs A, ∀ handler : HttpHandler A,
      (receive h handler chunks).2.isValid = handler.isValid := by
    intro chunks
    induction chunks with
    | nil => exact fun _ _ => rfl
    | cons chunk chunks ih =>
      intro h handler
      refine (ih (onBody h handler chunk).1 (onBody h handler chunk).2).trans ?_
      unfold onBody
      split <;> rfl
  have hvalid := hreceive chunks h ⟨none, true⟩
  unfold serve onRequest
  simp only [hpath, postLocations_location, hmethod, ne_eq, not_true, if_false]
  unfold onEOM
  simp only [hpath, postLocations_location, hvalid, Bool.true_eq_false, if_false]
  cases post.process rest (receive h ⟨none, true⟩ chunks).1 fuel (receive h ⟨none, true⟩ chunks).2.body s <;> rfl

/-- What is asked of a POST with these chunks: the loop of `parseIOBuf` ends, with the bytes
    of all chunks in order of arrival, and the request is answered on them, with code -1
    where they are no JSON. -/
structure ReadWhole (rest : Rest S Json) (post : Post) (h : IOBufs A) (header : HTTPMessage) (chunks : List (A × List A))
    (s : S) : Prop where
  body : ∃ rounds, ∀ fuel, rounds ≤ fuel →
    parseIOBuf (receive h ⟨none, true⟩ (chunks.map (·.1))).1 fuel (receive h ⟨none, true⟩ (chunks.map (·.1))).2.body =
      .body (chunks.flatMap (bytesOf h))
  answer : ∃ rounds, ∀ fuel, rounds ≤ fuel →
    serve (postLocations rest) h fuel header (chunks.map (·.1)) s =
      some (post.outcome rest header (chunks.flatMap (bytesOf h)) s)
  invalid : rest.parseJson (chunks.flatMap (bytesOf h)) = none → ∃ rounds, ∀ fuel, rounds ≤ fuel →
    serve (postLocations rest) h fuel header (chunks.map (·.1)) s = some (.answered s (-1) post.invalid)

/-- A POST is read whole, and answered, iff it has a chunk. -/
theorem read_whole_iff (rest : Rest S Json) (post : Post) {h : IOBufs A} {header : HTTPMessage}
    (hpath : header.path = post.location) (hmethod : header.method = some .POST) {chunks : List (A × List A)}
    (hc : Rings h chunks) (s : S) : ReadWhole rest post h header chunks s ↔ chunks ≠ [] := by
  cases chunks with
  | nil =>
    refine ⟨fun hread => ?_, fun hne => absurd rfl hne⟩
    obtain ⟨rounds, hbody⟩ := hread.body
    cases hbody rounds (Nat.le_refl _)
  | cons chunk chunks =>
    refine ⟨fun _ => List.cons_ne_nil _ _, fun _ => ?_⟩
    have hserve : ∀ fuel, ((chunk :: chunks).flatMap (·.2)).length ≤ fuel →
        serve (postLocations rest) h fuel header ((chunk :: chunks).map (·.1)) s =
          some (post.outcome rest header ((chunk :: chunks).flatMap (bytesOf h)) s) := by
      intro fuel hfuel
      rw [serve_post rest post h fuel hpath hmethod, Post.process, parseIOBuf_received hc true hfuel]
      rfl
    refine ⟨⟨_, fun fuel hfuel => parseIOBuf_received hc true hfuel⟩, ⟨_, hserve⟩,
      fun hjson => ⟨((chunk :: chunks).flatMap (·.2)).length, fun fuel hfuel => ?_⟩⟩
    rw [hserve fuel hfuel, Post.outcome, Post.answer, hjson]
    rfl

/-- Three buffers: a chunk of two, with the bytes of an opening brace, and a chunk of one,
    with those of a closing one. -/
def braces : IOBufs Nat where
  next a := if a = 0 then 1 else if a = 1 then 0 else a
  prev a := if a = 0 then 1 else if a = 1 then 0 else a
  data a := if a = 1 then [123] else if a = 2 then [125] else []

theorem braces_rings : Rings braces [(0, [0, 1]), (2, [2])] := by
  refine ⟨fun r hr => ?_, by simp [List.Disjoint]⟩
  simp only [List.mem_cons, List.not_mem_nil, or_false] at hr
  rcases hr with rfl | rfl
  · exact ⟨rfl, by decide, by simp [Heap.Linked, braces], by simp [Heap.Linked, braces]⟩
  · exact ⟨rfl, by decide, by simp, by simp [Heap.Linked, braces]⟩

/-- An empty object is JSON, and the empty text is not. -/
def emptyObject : Rest (List (String × String)) Unit where
  parseJson text := if text = [123, 125] then some () else none
  use _ _ _ := .done []

def updateMap : HTTPMessage :=
  ⟨"/update_global_model_service_map", "/update_global_model_service_map", some .POST⟩

theorem read_whole_iff_braces :
    Rings braces [(0, [0, 1]), (2, [2])] ∧
      (ReadWhole emptyObject .updateGlobalModelServiceMap braces updateMap [(0, [0, 1]), (2, [2])] [("m", "s")] ↔
        [(0, [0, 1]), (2, [2])] ≠ ([] : List (Nat × List Nat))) ∧
      serve (postLocations emptyObject) braces 3 updateMap [0, 2] [("m", "s")] =
        some (.answered [] 0 "update global_model_service_map success") :=
  ⟨braces_rings, read_whole_iff emptyObject .updateGlobalModelServiceMap rfl rfl braces_rings [("m", "s")],
    by decide +kernel⟩

/-- A POST without a body: the null pointer is read. -/
theorem a_post_without_body_reads_null :
    (∀ fuel, serve (postLocations emptyObject) braces fuel updateMap [] [("m", "s")] = some .null) ∧
      ¬ ReadWhole emptyObject .updateGlobalModelServiceMap braces updateMap [] [("m", "s")] := by
  refine ⟨fun fuel => rfl, fun hread => ?_⟩
  obtain ⟨rounds, hbody⟩ := hread.body
  cases hbody rounds (Nat.le_refl _)

end PredictorService.HttpServer
