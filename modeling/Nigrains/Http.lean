import Nigrains.Wire

/-!
# A call over HTTP

`send` is the client's half : it renders a call, posts it, and reads the answer. `asgiApp` is
the server's : it reads the call, has the runtime deliver it, and renders what came of that. The
runtime is a parameter `serve`, and the request and the response reach the other side.

The method sees the image of its arguments, and the caller the image of the answer. So a call
means the same there as here exactly as far as its names and its values are plain (`forwarded`).
-/

set_option linter.unusedSectionVars false

namespace Nigrains

variable {φ : Type*} [DecidableEq φ] (ρ : Numerals φ)

/-- It is a string. -/
def Key.isStr : Key φ → Bool
  | .str _ => true
  | _ => false

/-- One call of a method. -/
structure Invocation (φ : Type*) where
  /-- The `GrainId`. -/
  type : Str
  key : Str
  method : Str
  args : List (Value φ)
  kwargs : List (Key φ × Value φ)
  /-- Keyword arguments have names. -/
  named : ∀ e ∈ kwargs, e.1.isStr = true
  distinct : (kwargs.map Prod.fst).Nodup
  timeout : Option φ

/-- What came of one. -/
inductive Served (φ : Type*)
  | returned (v : Value φ)
  | raised (exc : Failure)
  | cancelled

/-- `timeout`, as a value. -/
def ofTimeout : Option φ → Value φ
  | none => .none
  | some seconds => .float seconds

/-- The body of a request. -/
def Invocation.body (request : Invocation φ) : Value φ :=
  .dict [(.str "type", .str request.type), (.str "key", .str request.key),
    (.str "method", .str request.method), (.str "args", .list request.args),
    (.str "kwargs", .dict request.kwargs), (.str "timeout", ofTimeout request.timeout)]

/-- `type(v).__name__`. -/
def Value.className : Value φ → String
  | .none => "NoneType"
  | .bool _ => "bool"
  | .int _ => "int"
  | .float _ => "float"
  | .str _ => "str"
  | .list _ => "list"
  | .tuple _ => "tuple"
  | .dict _ => "dict"
  | .other className => className

/-- `v[key]`. -/
def Value.item (v : Value φ) (key : String) : Except Failure (Value φ) :=
  match v with
  | .dict entries =>
    match entries.find? fun e => e.1 = .str key with
    | some (_, w) => .ok w
    | .none => .error ⟨"KeyError", "'" ++ key ++ "'"⟩
  | .list _ => .error ⟨"TypeError", "list indices must be integers or slices, not str"⟩
  | .tuple _ => .error ⟨"TypeError", "tuple indices must be integers or slices, not str"⟩
  | .str _ => .error ⟨"TypeError", "string indices must be integers, not 'str'"⟩
  | v => .error ⟨"TypeError", "'" ++ v.className ++ "' object is not subscriptable"⟩

/-- The request that a body is, if its values are of the kinds that `body` gives them. -/
def Invocation.ofBody (body : Value φ) : Except Failure (Invocation φ) :=
  match body.item "type", body.item "key", body.item "method", body.item "args",
    body.item "kwargs", body.item "timeout" with
  | .ok (.str type), .ok (.str key), .ok (.str method), .ok (.list args), .ok (.dict kwargs),
    .ok timeout =>
    if h : (∀ e ∈ kwargs, e.1.isStr = true) ∧ (kwargs.map Prod.fst).Nodup then
      match timeout with
      | .none => .ok ⟨type, key, method, args, kwargs, h.1, h.2, none⟩
      | .float seconds => .ok ⟨type, key, method, args, kwargs, h.1, h.2, some seconds⟩
      | _ => .error ⟨"TypeError", "not a timeout"⟩
    else .error ⟨"TypeError", "keywords must be strings"⟩
  | .error exc, _, _, _, _, _ => .error exc
  | _, .error exc, _, _, _, _ => .error exc
  | _, _, .error exc, _, _, _ => .error exc
  | _, _, _, .error exc, _, _ => .error exc
  | _, _, _, _, .error exc, _ => .error exc
  | _, _, _, _, _, .error exc => .error exc
  | _, _, _, _, _, _ => .error ⟨"TypeError", "not a request"⟩

/-- A response. -/
structure Response (φ : Type*) where
  status : ℕ
  content : Json φ

/-- `_OK` and `_FAILED`. -/
def okStatus : ℕ := 200
def failedStatus : ℕ := 500

/-- The response of a call that failed. -/
def failedResponse (exc : Failure) : Option (Response φ) :=
  match dumps ρ (.dict [(.str "error", failureToWire exc)]) with
  | .ok content => some ⟨failedStatus, content⟩
  | .error _ => none

/-- The endpoint that serves forwarded calls, or nothing if it raises. -/
def asgiApp (serve : Invocation φ → Served φ) (content : Json φ) : Option (Response φ) :=
  match Invocation.ofBody (loads content) with
  | .error exc => failedResponse ρ exc
  | .ok request =>
    match serve request with
    | .cancelled => none
    | .raised exc => failedResponse ρ exc
    | .returned v =>
      match dumps ρ (.dict [(.str "value", v)]) with
      | .ok content => some ⟨okStatus, content⟩
      | .error _ => none

/-- How a forwarded call ends for who sent it. -/
inductive Sent (φ : Type*)
  | returned (v : Value φ)
  | raised (exc : Rebuilt)
  /-- The body could not be rendered, and nothing was posted. -/
  | refused (e : DumpError)
  /-- There was no response, or not one that can be read. -/
  | unanswered

/-- Reads a response. -/
def readResponse (response : Response φ) : Sent φ :=
  let answer := loads response.content
  if response.status = okStatus then
    match answer.item "value" with
    | .ok v => .returned v
    | .error _ => .unanswered
  else
    match answer.item "error" with
    | .ok rendered => .raised (failureFromWire rendered)
    | .error _ => .unanswered

/-- Posts one call to another node, where it is served. -/
def send (serve : Invocation φ → Served φ) (request : Invocation φ) : Sent φ :=
  match dumps ρ request.body with
  | .error e => .refused e
  | .ok content =>
    match asgiApp ρ serve content with
    | none => .unanswered
    | some response => readResponse response

/-- Its arguments can be rendered. -/
def Invocation.Rendered (request : Invocation φ) : Prop :=
  (∀ v ∈ request.args, Nigrains.Rendered ρ v) ∧
    ∀ e ∈ request.kwargs, Nigrains.Rendered ρ e.2

/-- Its names and its arguments are plain. -/
structure Invocation.Plain (nan : φ → Prop) (request : Invocation φ) : Prop where
  type : request.type.Whole
  key : request.key.Whole
  method : request.method.Whole
  args : Nigrains.Plain nan (.list request.args)
  kwargs : Nigrains.Plain nan (.dict request.kwargs)

/-- They have equal names and equal arguments. -/
structure Invocation.Equals (nan : φ → Prop) (request request' : Invocation φ) : Prop where
  type : request.type = request'.type
  key : request.key = request'.key
  method : request.method = request'.method
  args : Nigrains.Equals nan (.list request.args) (.list request'.args)
  kwargs : Nigrains.Equals nan (.dict request.kwargs) (.dict request'.kwargs)

/-- What it arrives as. -/
def Invocation.image (request : Invocation φ) : Invocation φ where
  type := request.type.joined
  key := request.key.joined
  method := request.method.joined
  args := request.args.map (Nigrains.image ρ)
  kwargs := fromPairs (imageEntries ρ request.kwargs)
  named := by
    intro e he
    obtain ⟨m, -, hkey⟩ := mem_keys_fromPairs.1 (List.mem_map_of_mem he)
    rw [hkey]
    rfl
  distinct := nodup_fromPairs _
  timeout := request.timeout

variable {ρ} {nan : φ → Prop} {request : Invocation φ} {serve : Invocation φ → Served φ}

theorem Key.isStr_iff {k : Key φ} : k.isStr = true ↔ ∃ s, k = .str s := by
  cases k <;> simp [Key.isStr]

theorem Invocation.rendered_kwargs : Nigrains.Rendered ρ (.dict request.kwargs) ↔
    ∀ e ∈ request.kwargs, Nigrains.Rendered ρ e.2 := by
  refine rendered_dict.trans (forall₂_congr fun e he => and_iff_right ?_)
  obtain ⟨s, hs⟩ := Key.isStr_iff.1 (request.named e he)
  exact ⟨s.joined, by rw [hs, Key.text]⟩

theorem rendered_str (s : Str) : Nigrains.Rendered ρ (.str s : Value φ) :=
  ⟨.str s.joined, rfl⟩

theorem rendered_ofTimeout (timeout : Option φ) : Nigrains.Rendered ρ (ofTimeout timeout) := by
  cases timeout with
  | none => exact ⟨.null, rfl⟩
  | some seconds => exact ⟨.float seconds, rfl⟩

/-- A body is rendered if its arguments are. -/
theorem Invocation.rendered_body : Nigrains.Rendered ρ request.body ↔ request.Rendered ρ := by
  have htext : ∀ s : Str, ∃ text, (Key.str s : Key φ).text ρ = .ok text := fun s =>
    ⟨s.joined, rfl⟩
  rw [Invocation.body, rendered_dict]
  simp only [List.forall_mem_cons, List.not_mem_nil, false_implies, implies_true, htext,
    rendered_str, rendered_ofTimeout, rendered_list, Invocation.rendered_kwargs, true_and, and_true]
  rfl

theorem image_ofTimeout (timeout : Option φ) :
    Nigrains.image ρ (ofTimeout timeout) = ofTimeout timeout := by
  cases timeout with
  | none => rfl
  | some seconds => rfl

theorem Invocation.image_args :
    Nigrains.image ρ (.list request.args) = .list (request.image ρ).args := by
  rw [Nigrains.image, imageAll_eq_map]
  rfl

theorem Invocation.image_kwargs :
    Nigrains.image ρ (.dict request.kwargs) = .dict (request.image ρ).kwargs := by
  rw [Nigrains.image]
  rfl

/-- A body arrives as the body of what the call arrives as. -/
theorem Invocation.image_body : Nigrains.image ρ request.body = (request.image ρ).body := by
  have hstr : ∀ s : Str, Nigrains.image ρ (.str s : Value φ) = .str s.joined := fun _ => rfl
  rw [Invocation.body, Nigrains.image, fromPairs_imageEntries (by simp) (by simp)]
  simp only [List.map_cons, List.map_nil, hstr, Invocation.image_args, Invocation.image_kwargs,
    image_ofTimeout]
  rfl

/-- What a body was made from is read off it. -/
theorem Invocation.ofBody_body : Invocation.ofBody request.body = .ok request := by
  obtain ⟨type, key, method, args, kwargs, named, distinct, timeout⟩ := request
  have h : (∀ e ∈ kwargs, e.1.isStr = true) ∧ (kwargs.map Prod.fst).Nodup := ⟨named, distinct⟩
  cases timeout
  · simp [Invocation.ofBody, Invocation.body, Value.item, ofTimeout, dif_pos h]
  · simp [Invocation.ofBody, Invocation.body, Value.item, ofTimeout, dif_pos h]

/-- Nothing is posted that cannot be rendered. -/
theorem send_refused : (∃ e, send ρ serve request = .refused e) ↔ ¬ request.Rendered ρ := by
  rw [← Invocation.rendered_body, Nigrains.Rendered]
  unfold send
  cases h : dumps ρ request.body with
  | error e => simp
  | ok content =>
    refine iff_of_false ?_ (not_not.2 ⟨content, rfl⟩)
    rintro ⟨e, he⟩
    simp only at he
    split at he
    · cases he
    · next response _ =>
      unfold readResponse at he
      simp only at he
      repeat' split at he
      all_goals cases he

/-- What arrives is served, and what it returns arrives. -/
theorem send_eq (hrequest : request.Rendered ρ) {v : Value φ}
    (hserve : serve (request.image ρ) = .returned v) (hv : Nigrains.Rendered ρ v) :
    send ρ serve request = .returned (image ρ v) := by
  obtain ⟨content, hcontent⟩ := Invocation.rendered_body.2 hrequest
  have harrives : Invocation.ofBody (loads content) = .ok (request.image ρ) := by
    rw [loads_dumps _ hcontent, Invocation.image_body, Invocation.ofBody_body]
  have hanswer : Nigrains.Rendered ρ (.dict [(.str "value", v)]) := by
    rw [rendered_dict]
    simpa [Key.text] using hv
  obtain ⟨answer, hanswer⟩ := hanswer
  have hread : loads answer = .dict [(.str "value", image ρ v)] := by
    rw [loads_dumps _ hanswer, image, fromPairs_imageEntries (by simp) (by simp)]
    rfl
  simp [send, hcontent, asgiApp, harrives, hserve, hanswer, readResponse, hread, Value.item]

/-- A plain call arrives as it is. -/
theorem Invocation.Plain.image_eq (h : request.Plain nan) : request.image ρ = request := by
  have hargs : (request.image ρ).args = request.args :=
    Value.list.inj (Invocation.image_args.symm.trans h.args.image_eq)
  have hkwargs : (request.image ρ).kwargs = request.kwargs :=
    Value.dict.inj (Invocation.image_kwargs.symm.trans h.kwargs.image_eq)
  have htype := h.type.joined_eq
  have hkey := h.key.joined_eq
  have hmethod := h.method.joined_eq
  obtain ⟨type, key, method, args, kwargs, named, distinct, timeout⟩ := request
  simp only [Invocation.image, Invocation.mk.injEq] at hargs hkwargs htype hkey hmethod ⊢
  exact ⟨htype, hkey, hmethod, hargs, hkwargs, trivial⟩

/-- A call arrives equal exactly if it is plain. -/
theorem Invocation.equals_image_iff (hrequest : request.Rendered ρ) :
    request.Equals nan (request.image ρ) ↔ request.Plain nan := by
  obtain ⟨jargs, hargs⟩ := rendered_list.2 hrequest.1
  obtain ⟨jkwargs, hkwargs⟩ := Invocation.rendered_kwargs.2 hrequest.2
  have hargs : Nigrains.Equals nan (.list request.args) (Nigrains.image ρ (.list request.args)) ↔
      Nigrains.Plain nan (.list request.args) := Nigrains.equals_image_iff hargs
  have hkwargs : Nigrains.Equals nan (.dict request.kwargs)
      (Nigrains.image ρ (.dict request.kwargs)) ↔ Nigrains.Plain nan (.dict request.kwargs) :=
    Nigrains.equals_image_iff hkwargs
  rw [Invocation.image_args] at hargs
  rw [Invocation.image_kwargs] at hkwargs
  constructor
  · intro h
    exact ⟨Str.joined_eq_iff.1 h.type.symm, Str.joined_eq_iff.1 h.key.symm,
      Str.joined_eq_iff.1 h.method.symm, hargs.1 h.args, hkwargs.1 h.kwargs⟩
  · intro h
    exact ⟨h.type.joined_eq.symm, h.key.joined_eq.symm, h.method.joined_eq.symm, hargs.2 h.args,
      hkwargs.2 h.kwargs⟩

/-- A call whose arguments and answer can be rendered is served there with the images of its
arguments, and answered with the image of what is returned; an argument that cannot be is refused
on the sending side. What arrives is equal to what left exactly if it is plain, and if both call
and answer are, the call means the same there as here. -/
theorem forwarded (ρ : Numerals φ) (nan : φ → Prop) (serve : Invocation φ → Served φ)
    (request : Invocation φ) :
    ((∃ e, send ρ serve request = .refused e) ↔ ¬ request.Rendered ρ) ∧
      (request.Rendered ρ →
        (request.Equals nan (request.image ρ) ↔ request.Plain nan) ∧
        (∀ v, serve (request.image ρ) = .returned v → Rendered ρ v →
          send ρ serve request = .returned (image ρ v) ∧
            (Equals nan v (image ρ v) ↔ Plain nan v)) ∧
        (request.Plain nan → ∀ v, Plain nan v → Rendered ρ v → serve request = .returned v →
          send ρ serve request = .returned v)) := by
  refine ⟨send_refused, fun hrequest => ⟨Invocation.equals_image_iff hrequest, ?_, ?_⟩⟩
  · rintro v hserve ⟨j, hj⟩
    exact ⟨send_eq hrequest hserve ⟨j, hj⟩, equals_image_iff hj⟩
  · intro hplain v hv hrendered hserve
    have hsent := send_eq hrequest (hplain.image_eq.symm ▸ hserve) hrendered
    rwa [hv.image_eq] at hsent

/-- An interpreter that writes ints of any length. -/
def unlimited : Numerals ℚ where
  repr _ := ""
  limit := 0

/-- A method that answers with its first argument. -/
def echo (request : Invocation ℚ) : Served ℚ :=
  match request.args with
  | v :: _ => .returned v
  | [] => .raised ⟨"TypeError", "missing 1 required positional argument: 'value'"⟩

/-- A call of it. -/
def echoes (v : Value ℚ) : Invocation ℚ where
  type := "adder"
  key := "k0"
  method := "echo"
  args := [v]
  kwargs := []
  named := by simp
  distinct := by simp
  timeout := none

theorem rendered_echoes {v : Value ℚ} (h : Rendered unlimited v) :
    (echoes v).Rendered unlimited :=
  ⟨by simpa [echoes] using h, by simp [echoes]⟩

/-- A dictionary with strings for keys means the same there. -/
theorem forwarded_echo : send unlimited echo
    (echoes (.dict [(.str "a", .list [.int 1, .int 2, .none]), (.str "b", .str "x")])) =
      .returned (.dict [(.str "a", .list [.int 1, .int 2, .none]), (.str "b", .str "x")]) := by
  have hplain : Plain (fun _ => False)
      (.dict [(.str "a", .list [.int 1, .int 2, .none]), (.str "b", .str "x")] : Value ℚ) := by
    refine .dict (by simp) (by simp) ?_
    simp only [List.forall_mem_cons]
    refine ⟨.list ?_, .str (Str.whole_ofString _), by simp⟩
    simp only [List.forall_mem_cons]
    exact ⟨.int 1, .int 2, .none, by simp⟩
  have hcall : (echoes (.dict [(.str "a", .list [.int 1, .int 2, .none]),
      (.str "b", .str "x")])).Plain fun _ => False :=
    ⟨Str.whole_ofString _, Str.whole_ofString _, Str.whole_ofString _,
      .list (List.forall_mem_singleton.2 hplain), .dict (by simp [echoes]) (by simp [echoes])
        (by simp [echoes])⟩
  have hrendered : Rendered unlimited
      (.dict [(.str "a", .list [.int 1, .int 2, .none]), (.str "b", .str "x")] : Value ℚ) :=
    ⟨_, rfl⟩
  exact ((forwarded unlimited (fun _ => False) echo _).2 (rendered_echoes hrendered)).2.2 hcall _
    hplain hrendered rfl

/-- A tuple can be rendered, and arrives as a list; of two keys that are written alike one
arrives; and two surrogates arrive as one character. -/
theorem arrives_otherwise :
    send unlimited echo (echoes (.tuple [.int 1])) = .returned (.list [.int 1]) ∧
    send unlimited echo (echoes (.dict [(.int 1, .none), (.str "1", .bool true)])) =
      .returned (.dict [(.str "1", .bool true)]) ∧
    send unlimited echo (echoes (.str ⟨[0xD83D, 0xDE00]⟩)) = .returned (.str ⟨[0x1F600]⟩) ∧
    ¬ ∀ (request : Invocation ℚ) v, request.Rendered unlimited →
      Rendered unlimited v → echo request = .returned v →
        send unlimited echo request = .returned v := by
  have htuple : send unlimited echo (echoes (.tuple [.int 1])) =
      .returned (.list [.int 1]) := rfl
  refine ⟨htuple, rfl, rfl, fun h => ?_⟩
  have hrendered : Rendered unlimited (.tuple [.int 1] : Value ℚ) := ⟨_, rfl⟩
  have hsame := h (echoes (.tuple [.int 1])) (.tuple [.int 1])
    (rendered_echoes hrendered) hrendered rfl
  rw [htuple] at hsame
  cases hsame

end Nigrains
