import Nigrains.Http

/-!
# What the endpoint does with any request

`asgi_app` reads the whole body, and its `try` ends in one of three ways (`attempt`), whatever the
body holds : something is returned, something is raised, or the task is cancelled. A failure is
always rendered and answered. What is returned is rendered after the `try`, so a value that
cannot be is raised to the server, and nobody is answered (`answered_iff`).

How `json` reads bytes is a parameter `parse`, and what the runtime makes of a call `deliver`.
-/

namespace Nigrains

variable {φ : Type*}

/-! ## What `json` reads, as arguments -/

/-- A key, as a value. -/
def Key.value : Key φ → Value φ
  | .none => .none
  | .bool b => .bool b
  | .int n => .int n
  | .float x => .float x
  | .str s => .str s
  | .other className => .other className

/-- A value, as a key. -/
def Value.key : Value φ → Except Failure (Key φ)
  | .none => .ok .none
  | .bool b => .ok (.bool b)
  | .int n => .ok (.int n)
  | .float x => .ok (.float x)
  | .str s => .ok (.str s)
  | .tuple _ => .ok (.other "tuple")
  | .list _ => .error ⟨"TypeError", "cannot use 'list' as a dict key (unhashable type: 'list')"⟩
  | .dict _ => .error ⟨"TypeError", "cannot use 'dict' as a dict key (unhashable type: 'dict')"⟩
  | .other className => .ok (.other className)

/-- `tuple(v)`. -/
def Value.items : Value φ → Except Failure (List (Value φ))
  | .list items => .ok items
  | .tuple items => .ok items
  | .str s => .ok (s.points.map fun p => .str ⟨[p]⟩)
  | .dict entries => .ok (entries.map fun e => e.1.value)
  | v => .error ⟨"TypeError", "'" ++ v.className ++ "' object is not iterable"⟩

/-- An element of what `dict` is given, the `i`-th. -/
def Value.pair (i : ℕ) (v : Value φ) : Except Failure (Key φ × Value φ) :=
  match v.items with
  | .error _ => .error ⟨"TypeError",
      "cannot convert dictionary update sequence element #" ++ toString i ++ " to a sequence"⟩
  | .ok [k, w] => k.key.map fun k => (k, w)
  | .ok items => .error ⟨"ValueError", "dictionary update sequence element #" ++ toString i ++
      " has length " ++ toString items.length ++ "; 2 is required"⟩

variable [DecidableEq φ]

/-- `d[k] = v`, of keys as they are written. -/
def setKey (k : Key φ) (v : Value φ) : List (Key φ × Value φ) → List (Key φ × Value φ)
  | [] => [(k, v)]
  | (k', w) :: rest => if k' = k then (k', v) :: rest else (k', w) :: setKey k v rest

/-- `dict` of a sequence whose first `i` elements make `entries`. -/
def fromItems (i : ℕ) (entries : List (Key φ × Value φ)) :
    List (Value φ) → Except Failure (List (Key φ × Value φ))
  | [] => .ok entries
  | v :: rest =>
    match v.pair i with
    | .error exc => .error exc
    | .ok (k, w) => fromItems (i + 1) (setKey k w entries) rest

/-- `dict(v)`. -/
def Value.entries (v : Value φ) : Except Failure (List (Key φ × Value φ)) :=
  match v with
  | .dict entries => .ok entries
  | v => v.items.bind (fromItems 0 [])

/-- What `deliver` is called with, as it arrived. -/
structure Arguments (φ : Type*) where
  type : Value φ
  key : Value φ
  method : Value φ
  args : List (Value φ)
  kwargs : List (Key φ × Value φ)
  timeout : Value φ

/-- The arguments of `deliver`, read off a request in the order in which they stand. -/
def Arguments.ofRequest (request : Value φ) : Except Failure (Arguments φ) := do
  let type ← request.item "type"
  let key ← request.item "key"
  let method ← request.item "method"
  let args ← (← request.item "args").items
  let kwargs ← (← request.item "kwargs").entries
  let timeout ← request.item "timeout"
  return ⟨type, key, method, args, kwargs, timeout⟩

/-! ## The application -/

/-- What `receive` returns, as far as `_read` looks at it. -/
structure Chunk where
  body : Option (List UInt8)
  moreBody : Option Bool

/-- `_read`, when `body` has been read, or nothing while it waits for more. -/
def readBody (body : List UInt8) : List Chunk → Option (List UInt8)
  | [] => none
  | chunk :: rest =>
    let body := body ++ chunk.body.getD []
    if chunk.moreBody.getD false then readBody body rest else some body

/-- What is sent to the server. -/
inductive AsgiEvent (φ : Type*)
  | start (status : ℕ) (headers : List (String × String))
  | body (content : Json φ)

/-- How the application ends. -/
inductive Ending
  | returned
  | raised (exc : Failure)
  | cancelled
deriving DecidableEq, Repr

/-- What the application has sent, and how it has ended. -/
structure Exchange (φ : Type*) where
  sent : List (AsgiEvent φ)
  ending : Ending

/-- `_respond`. -/
def respond (status : ℕ) (content : Json φ) : List (AsgiEvent φ) :=
  [.start status [("content-type", "application/octet-stream")], .body content]

/-- How the `try` ends. -/
def attempt (parse : List UInt8 → Except Failure (Json φ)) (deliver : Arguments φ → Served φ)
    (body : List UInt8) : Served φ :=
  match parse body with
  | .error exc => .raised exc
  | .ok content =>
    match Arguments.ofRequest (loads content) with
    | .error exc => .raised exc
    | .ok arguments => deliver arguments

variable (ρ : Numerals φ)

/-- `await _respond(send, status, used.encode({key: v}))`. -/
def answer (status : ℕ) (key : String) (v : Value φ) : Exchange φ :=
  match dumps ρ (.dict [(.str key, v)]) with
  | .ok content => ⟨respond status content, .returned⟩
  | .error e => ⟨[], .raised ⟨e.className, e.message⟩⟩

/-- The application, for a scope of type `http`. -/
def app (parse : List UInt8 → Except Failure (Json φ)) (deliver : Arguments φ → Served φ)
    (chunks : List Chunk) : Option (Exchange φ) :=
  (readBody [] chunks).map fun body =>
    match attempt parse deliver body with
    | .cancelled => ⟨[], .cancelled⟩
    | .raised exc => answer ρ failedStatus "error" (failureToWire exc)
    | .returned v => answer ρ okStatus "value" v

/-- One response : its start and one body, in which there is a value or an error. -/
def Exchange.Answered (x : Exchange φ) : Prop :=
  x.ending = .returned ∧ ∃ status content, x.sent = respond status content ∧
    ((∃ v, (loads content).item "value" = .ok v) ∨ ∃ exc, (loads content).item "error" = .ok exc)

variable {ρ} {parse : List UInt8 → Except Failure (Json φ)} {deliver : Arguments φ → Served φ}
  {chunks : List Chunk} {body : List UInt8}

/-! ## The body -/

/-- However a body is split, it is read whole. -/
theorem readBody_append (l : List (List UInt8)) (last : Chunk)
    (hlast : last.moreBody.getD false = false) (body : List UInt8) :
    readBody body (l.map (fun b => ⟨some b, some true⟩) ++ [last]) =
      some (body ++ l.flatten ++ last.body.getD []) := by
  induction l generalizing body with
  | nil => simp [readBody, hlast]
  | cons b l ih =>
    rw [List.map_cons, List.cons_append, readBody]
    simp only [Option.getD_some, if_true, ih, List.flatten_cons, List.append_assoc]

/-! ## The answer -/

theorem rendered_failureToWire (exc : Failure) : Rendered ρ (failureToWire exc : Value φ) := by
  refine rendered_dict.2 fun e he => ?_
  simp only [List.mem_cons, List.not_mem_nil, or_false] at he
  rcases he with rfl | rfl
  · exact ⟨⟨_, rfl⟩, rendered_str _⟩
  · exact ⟨⟨_, rfl⟩, rendered_str _⟩

theorem rendered_singleton (key : String) {v : Value φ} :
    Rendered ρ (.dict [(.str key, v)]) ↔ Rendered ρ v := by
  rw [rendered_dict]
  simp [Key.text]

/-- What is rendered under one key is read under it. -/
theorem item_loads {key : String} {v : Value φ} {content : Json φ}
    (h : dumps ρ (.dict [(.str key, v)]) = .ok content) :
    (loads content).item key = .ok (image ρ v) := by
  have hread : loads content = .dict [(.str key, image ρ v)] := by
    rw [loads_dumps _ h, image, fromPairs_imageEntries (by simp) (by simp)]
    rfl
  rw [hread]
  simp [Value.item]

theorem answered_answer {status : ℕ} {key : String} {v : Value φ}
    (hkey : key = "value" ∨ key = "error") : (answer ρ status key v).Answered ↔ Rendered ρ v := by
  rw [← rendered_singleton key]
  unfold answer
  cases h : dumps ρ (.dict [(.str key, v)]) with
  | error e =>
    refine iff_of_false (fun hx => ?_) fun ⟨j, hj⟩ => ?_
    · cases hx.1
    · rw [h] at hj
      cases hj
  | ok content =>
    refine iff_of_true ⟨rfl, status, content, rfl, ?_⟩ ⟨content, h⟩
    rcases hkey with rfl | rfl
    · exact .inl ⟨_, item_loads h⟩
    · exact .inr ⟨_, item_loads h⟩

/-- A request whose body has come, and whose call is not cancelled, is answered with one response
exactly if what the call returned, if it returned, can be rendered. -/
theorem answered_iff (hread : readBody [] chunks = some body)
    (hcancelled : attempt parse deliver body ≠ .cancelled) :
    (∃ x, app ρ parse deliver chunks = some x ∧ x.Answered) ↔
      ∀ v, attempt parse deliver body = .returned v → Rendered ρ v := by
  unfold app
  rw [hread]
  simp only [Option.map_some, Option.some.injEq, exists_eq_left']
  cases h : attempt parse deliver body with
  | cancelled => exact (hcancelled h).elim
  | raised exc =>
    refine iff_of_true ((answered_answer (.inr rfl)).2 (rendered_failureToWire exc)) ?_
    rintro v hv
    cases hv
  | returned v =>
    refine (answered_answer (.inl rfl)).trans ⟨?_, fun hv => hv v rfl⟩
    rintro hv w hw
    cases hw
    exact hv

/-! ## A request that `send` has made -/

/-- What `deliver` is called with for one. -/
def Invocation.arguments (request : Invocation φ) : Arguments φ :=
  ⟨.str request.type, .str request.key, .str request.method, request.args, request.kwargs,
    ofTimeout request.timeout⟩

theorem Arguments.ofRequest_body (request : Invocation φ) :
    Arguments.ofRequest request.body = .ok request.arguments := by
  simp [Arguments.ofRequest, Invocation.body, Invocation.arguments, Value.item, Value.items,
    Value.entries, bind, Except.bind, pure, Except.pure]

/-- What the application sends for one is what `asgiApp` answers. -/
theorem app_eq_asgiApp {content : Json φ} {request : Invocation φ}
    (hread : readBody [] chunks = some body) (hparse : parse body = .ok content)
    (hcontent : loads content = request.body) : (app ρ parse deliver chunks).map Exchange.sent =
      some ((asgiApp ρ (fun r => deliver r.arguments) content).elim [] fun r =>
        respond r.status r.content) := by
  have hattempt : attempt parse deliver body = deliver request.arguments := by
    simp only [attempt, hparse, hcontent, Arguments.ofRequest_body]
  unfold app asgiApp
  rw [hread, hcontent, Invocation.ofBody_body]
  simp only [Option.map_some, hattempt, answer, failedResponse]
  cases deliver request.arguments with
  | cancelled => rfl
  | raised exc =>
    dsimp only
    cases dumps ρ (.dict [(.str "error", failureToWire exc)]) <;> rfl
  | returned v =>
    dsimp only
    cases dumps ρ (.dict [(.str "value", v)]) <;> rfl

/-! ## One request -/

/-- A reader that knows one text, and finds nothing in any other. -/
def knows (text : List UInt8) (content : Json ℚ) (body : List UInt8) : Except Failure (Json ℚ) :=
  if body = text then .ok content
  else .error ⟨"JSONDecodeError", "Expecting value: line 1 column 1 (char 0)"⟩

/-- A request for the method `tags` of a grain. -/
def tagsText : List UInt8 :=
  ("\x7b\"type\":\"adder\",\"key\":\"k0\",\"method\":\"tags\",\"args\":[],\"kwargs\":\x7b\x7d," ++
    "\"timeout\":null\x7d").toUTF8.toList

/-- As `json` reads it. -/
def tagsContent : Json ℚ :=
  .object [("type", .str "adder"), ("key", .str "k0"), ("method", .str "tags"), ("args", .array []),
    ("kwargs", .object []), ("timeout", .null)]

theorem attempt_tags (deliver : Arguments ℚ → Served ℚ) :
    attempt (knows tagsText tagsContent) deliver tagsText =
      deliver ⟨.str "adder", .str "k0", .str "tags", [], [], .none⟩ := by
  unfold attempt knows
  rw [if_pos rfl]
  rfl

/-- In two chunks, of a method that returns a string. -/
theorem answered_tags : ∃ x, app unlimited (knows tagsText tagsContent)
    (fun _ => .returned (.str "a")) [⟨some (tagsText.take 10), some true⟩,
      ⟨some (tagsText.drop 10), none⟩] = some x ∧ x.Answered := by
  have hread : readBody [] [⟨some (tagsText.take 10), some true⟩,
      ⟨some (tagsText.drop 10), none⟩] = some tagsText := by
    simpa using readBody_append [tagsText.take 10] ⟨some (tagsText.drop 10), none⟩ rfl []
  refine (answered_iff hread ?_).2 ?_
  · rw [attempt_tags]
    exact fun h => by cases h
  · rintro v hv
    rw [attempt_tags] at hv
    cases hv
    exact rendered_str _

/-- Of a method that returns a set : it is raised to the server, and nothing is sent. -/
theorem unanswered_tags : app unlimited (knows tagsText tagsContent)
    (fun _ => .returned (.other "set")) [⟨some tagsText, none⟩] =
      some ⟨[], .raised ⟨"TypeError", "Object of type set is not JSON serializable"⟩⟩ ∧
    ¬ ∃ x, app unlimited (knows tagsText tagsContent)
      (fun _ => .returned (.other "set")) [⟨some tagsText, none⟩] = some x ∧ x.Answered := by
  have hraised : app unlimited (knows tagsText tagsContent)
      (fun _ => .returned (.other "set")) [⟨some tagsText, none⟩] =
        some ⟨[], .raised ⟨"TypeError", "Object of type set is not JSON serializable"⟩⟩ := by
    have hread : readBody [] [⟨some tagsText, none⟩] = some tagsText := by simp [readBody]
    unfold app
    rw [hread]
    simp only [Option.map_some, attempt_tags]
    rfl
  refine ⟨hraised, ?_⟩
  rintro ⟨x, hx, hanswered⟩
  rw [hraised] at hx
  cases hx
  cases hanswered.1

end Nigrains
