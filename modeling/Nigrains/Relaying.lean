import Nigrains.Http

/-!
# A call handed from node to node

A node may serve a call by sending it on to another. What has arrived can be written again
(`canonical_image`), and is read as it was : a value changes on the first wire it crosses, and
on no other. Over any number of nodes the method is given what it would have been given over one
wire, and its answer arrives as it would have over one (`relayed`).
-/

set_option linter.unusedSectionVars false

namespace Nigrains

variable {φ : Type*} [DecidableEq φ] {ρ : Numerals φ}

/-! ## What arrives can be written again -/

theorem mem_setEntry {key : Str} {v : Value φ} {e : Key φ × Value φ} :
    ∀ {d : List (Key φ × Value φ)}, e ∈ setEntry key v d → e.2 = v ∨ e ∈ d
  | [], h => by
    obtain rfl := List.mem_singleton.1 h
    exact .inl rfl
  | (k, w) :: d, h => by
    rw [setEntry] at h
    split_ifs at h
    · rcases List.mem_cons.1 h with rfl | h
      · exact .inl rfl
      · exact .inr (List.mem_cons_of_mem _ h)
    · rcases List.mem_cons.1 h with rfl | h
      · exact .inr List.mem_cons_self
      · exact (mem_setEntry h).imp_right (List.mem_cons_of_mem _)

/-- A dictionary is made of the values of its members. -/
theorem mem_fromPairs {members : List (Str × Value φ)} {e : Key φ × Value φ}
    (h : e ∈ fromPairs members) : e.2 ∈ members.map Prod.snd := by
  have hfold : ∀ (members : List (Str × Value φ)) (d : List (Key φ × Value φ)),
      e ∈ members.foldl (fun d e => setEntry e.1 e.2 d) d →
        e ∈ d ∨ e.2 ∈ members.map Prod.snd := by
    intro members
    induction members with
    | nil => exact fun d h => .inl h
    | cons m members ih =>
      intro d h
      rw [List.map_cons, List.mem_cons]
      rcases ih _ h with h | h
      · exact (mem_setEntry h).elim (fun hv => .inr (.inl hv)) .inl
      · exact .inr (.inr h)
  exact (hfold members [] h).resolve_left List.not_mem_nil

/-- It is plain, NaN or not, and can be written. -/
structure Canonical (ρ : Numerals φ) (v : Value φ) : Prop where
  plain : Plain (fun _ => False) v
  rendered : Rendered ρ v

theorem Canonical.list {items : List (Value φ)} (h : ∀ v ∈ items, Canonical ρ v) :
    Canonical ρ (.list items) where
  plain := .list fun v hv => (h v hv).plain
  rendered := rendered_list.2 fun v hv => (h v hv).rendered

theorem Canonical.dict {entries : List (Key φ × Value φ)}
    (hkeys : ∀ e ∈ entries, ∃ s : Str, s.Whole ∧ e.1 = .str s)
    (hnodup : (entries.map Prod.fst).Nodup) (h : ∀ e ∈ entries, Canonical ρ e.2) :
    Canonical ρ (.dict entries) where
  plain := .dict hkeys hnodup fun e he => (h e he).plain
  rendered := rendered_dict.2 fun e he => by
    obtain ⟨s, -, hs⟩ := hkeys e he
    exact ⟨⟨s.joined, by rw [hs, Key.text]⟩, (h e he).rendered⟩

mutual

/-- What arrives can be written again. -/
theorem canonical_image : ∀ (v : Value φ) {j : Json φ}, dumps ρ v = .ok j →
    Canonical ρ (image ρ v)
  | .none, j, h => ⟨.none, j, h⟩
  | .bool b, j, h => ⟨.bool b, j, h⟩
  | .int n, j, h => ⟨.int n, j, h⟩
  | .float x, j, h => ⟨.float fun h => h, j, h⟩
  | .str s, _, _ => ⟨.str s.whole_joined, _, rfl⟩
  | .list items, j, h => by
    obtain ⟨js, hjs, -⟩ := map_eq_ok.1 h
    rw [image, imageAll_eq_map]
    exact .list (List.forall_mem_map.2 (canonicalAll_image items hjs))
  | .tuple items, j, h => by
    obtain ⟨js, hjs, -⟩ := map_eq_ok.1 h
    rw [image, imageAll_eq_map]
    exact .list (List.forall_mem_map.2 (canonicalAll_image items hjs))
  | .dict entries, j, h => by
    obtain ⟨ms, hms, -⟩ := map_eq_ok.1 h
    rw [image]
    refine .dict (fun e he => ?_) (nodup_fromPairs _) fun e he => ?_
    · obtain ⟨m, hm, hkey⟩ := mem_keys_fromPairs.1 (List.mem_map_of_mem he)
      obtain ⟨e', -, htext, -⟩ := mem_imageEntries.1 hm
      exact ⟨m.1, Key.whole_text htext, hkey⟩
    · obtain ⟨m, hm, hv⟩ := List.mem_map.1 (mem_fromPairs he)
      obtain ⟨e', he', -, himage⟩ := mem_imageEntries.1 hm
      rw [← hv, himage]
      exact canonicalEntries_image entries hms e' he'
  | .other className, j, h => by cases h

theorem canonicalAll_image : ∀ (items : List (Value φ)) {js : List (Json φ)},
    dumpsAll ρ items = .ok js → ∀ v ∈ items, Canonical ρ (image ρ v)
  | [], _, _ => by simp
  | v :: items, js, h => by
    obtain ⟨j, js', hv, hitems, -⟩ := dumpsAll_cons.1 h
    rintro w (_ | ⟨_, hw⟩)
    · exact canonical_image v hv
    · exact canonicalAll_image items hitems w hw

theorem canonicalEntries_image : ∀ (entries : List (Key φ × Value φ)) {ms : List (Str × Json φ)},
    dumpsEntries ρ entries = .ok ms → ∀ e ∈ entries, Canonical ρ (image ρ e.2)
  | [], _, _ => by simp
  | (k, v) :: entries, ms, h => by
    obtain ⟨text, j, ms', -, hv, hentries, -⟩ := dumpsEntries_cons.1 h
    rintro e (_ | ⟨_, he⟩)
    · exact canonical_image v hv
    · exact canonicalEntries_image entries hentries e he

end

theorem Rendered.canonical {v : Value φ} (h : Rendered ρ v) : Canonical ρ (image ρ v) := by
  obtain ⟨j, hj⟩ := h
  exact canonical_image v hj

/-! ## Over any number of nodes -/

/-- They call with the same arguments, whomever they call and however long they wait. -/
def Invocation.SameArguments (request request' : Invocation φ) : Prop :=
  request'.args = request.args ∧ request'.kwargs = request.kwargs

/-- A node that serves a call by sending its arguments on, and answers what it is answered. -/
def Relays (ρ : Numerals φ) (serve serve' : Invocation φ → Served φ) : Prop :=
  ∀ request, ∃ request', Invocation.SameArguments request request' ∧
    ∀ v, send ρ serve request' = .returned v → serve' request = .returned v

/-- A node, and how many others the arguments go through from there to where they are used. -/
inductive Relayed (ρ : Numerals φ) (serve : Invocation φ → Served φ) :
    ℕ → (Invocation φ → Served φ) → Prop
  | here : Relayed ρ serve 0 serve
  | hop {n : ℕ} {serve' serve'' : Invocation φ → Served φ} (h : Relayed ρ serve n serve')
    (hr : Relays ρ serve' serve'') : Relayed ρ serve (n + 1) serve''

variable {request request' : Invocation φ} {serve serve' : Invocation φ → Served φ} {v : Value φ}

namespace Invocation

/-- What is sent with the arguments of a call that has arrived can be written, and arrives with
them. -/
theorem SameArguments.image (h : SameArguments (request.image ρ) request')
    (hrequest : request.Rendered ρ) :
    request'.Rendered ρ ∧ SameArguments (request.image ρ) (request'.image ρ) := by
  have hargs : Canonical ρ (.list request'.args) := by
    rw [h.1, ← Invocation.image_args]
    exact (rendered_list.2 hrequest.1).canonical
  have hkwargs : Canonical ρ (.dict request'.kwargs) := by
    rw [h.2, ← Invocation.image_kwargs]
    exact (Invocation.rendered_kwargs.2 hrequest.2).canonical
  refine ⟨⟨rendered_list.1 hargs.rendered, Invocation.rendered_kwargs.1 hkwargs.rendered⟩,
    Eq.trans ?_ h.1, Eq.trans ?_ h.2⟩
  · exact Value.list.inj (Invocation.image_args.symm.trans hargs.plain.image_eq)
  · exact Value.dict.inj (Invocation.image_kwargs.symm.trans hkwargs.plain.image_eq)

end Invocation

/-- A node at whom the arguments have arrived answers what arrives as the last answer does. -/
theorem Relayed.answers {n : ℕ} (h : Relayed ρ serve n serve') (hrequest : request.Rendered ρ)
    (hserve : ∀ request', (request.image ρ).SameArguments request' →
      serve request' = .returned v) (hv : Rendered ρ v) :
    ∃ w, (∀ request', (request.image ρ).SameArguments request' → serve' request' = .returned w) ∧
      Rendered ρ w ∧ image ρ w = image ρ v := by
  induction h with
  | here => exact ⟨v, hserve, hv, rfl⟩
  | hop _ hr ih =>
    obtain ⟨w, hw, hrendered, himage⟩ := ih
    refine ⟨image ρ w, fun request₁ h₁ => ?_, hrendered.canonical.rendered,
      hrendered.canonical.plain.image_eq.trans himage⟩
    obtain ⟨request₂, h₂, hanswer⟩ := hr request₁
    have hsame : (request.image ρ).SameArguments request₂ :=
      ⟨h₂.1.trans h₁.1, h₂.2.trans h₁.2⟩
    obtain ⟨hrequest₂, harrives⟩ := hsame.image hrequest
    exact hanswer _ (send_eq hrequest₂ (hw _ harrives) hrendered)

/-- However many nodes the arguments of a call go through, each sending them on, the method that
uses them is given what it would be given over one wire, and its answer arrives as over one. -/
theorem relayed {n : ℕ} (h : Relayed ρ serve n serve') (hrequest : request.Rendered ρ)
    (hserve : ∀ request', (request.image ρ).SameArguments request' →
      serve request' = .returned v) (hv : Rendered ρ v) :
    send ρ serve' request = .returned (image ρ v) ∧
      send ρ serve request = .returned (image ρ v) := by
  obtain ⟨w, hw, hrendered, himage⟩ := h.answers hrequest hserve hv
  exact ⟨himage ▸ send_eq hrequest (hw _ ⟨rfl, rfl⟩) hrendered,
    send_eq hrequest (hserve _ ⟨rfl, rfl⟩) hv⟩

/-- A node that asks another one's echo. -/
def echoOf (serve : Invocation ℚ → Served ℚ) (request : Invocation ℚ) : Served ℚ :=
  match send unlimited serve request with
  | .returned v => .returned v
  | _ => .raised ⟨"RuntimeError", "no echo"⟩

/-- A tuple, echoed from two nodes away, is the list that it is from one. -/
theorem relayed_echo :
    send unlimited (echoOf (echoOf echo)) (echoes (.tuple [.int 1, .none])) =
      .returned (.list [.int 1, .none]) ∧
    send unlimited echo (echoes (.tuple [.int 1, .none])) =
      .returned (.list [.int 1, .none]) := by
  have hrelays : ∀ serve, Relays unlimited serve (echoOf serve) := fun serve request =>
    ⟨request, ⟨rfl, rfl⟩, fun v hv => by rw [echoOf, hv]⟩
  have hrequest : (echoes (.tuple [.int 1, .none])).Rendered unlimited := by
    have hvalue : Rendered unlimited (.tuple [.int 1, .none] : Value ℚ) := ⟨_, rfl⟩
    exact rendered_echoes hvalue
  refine relayed ((Relayed.here.hop (hrelays _)).hop (hrelays _)) hrequest
    (v := .list [.int 1, .none]) (fun request' h => ?_) ⟨_, rfl⟩
  obtain ⟨type, key, method, args, kwargs, named, distinct, timeout⟩ := request'
  obtain rfl : args = _ := h.1
  rfl

end Nigrains
