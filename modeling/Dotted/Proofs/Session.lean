import Dotted.Proofs.Nested
import Dotted.Proofs.ReadAfterWrite

/-!
# Sessions

A session is a list of operations on one document: writes along a path, which
may be refused, and replacements of the value that a path leads to, which may
find none.  What an operation has put at its path stays there until a later
one takes effect at that path, at one above it or at one below it.

* `Path.Apart` says of two paths that neither leads through the end of the
  other.  `Json.follow_written_of_apart` is the frame of a write: it keeps
  what is at every path apart from its own.
* `Json.written_of_focus?`: a replacement is a write where a value is.
* `Operation.get_apply` and `Operation.get_apply_of_apart` say what one
  operation does, and `Document.get_operate` what a session keeps.
* `Document.update_kept_until_overlap` is the law of whole sessions.
-/

namespace Dotted

/-- Neither path is the other one or its beginning. -/
def Path.Apart (p q : Path) : Prop :=
  ¬ p.segments <+: q.segments ∧ ¬ q.segments <+: p.segments

namespace Json

/-! ## The frame of a write -/

/-- After a write the segments lead to the leaf. -/
theorem follow_written {node leaf new : Json} {segments : List Segment}
    (h : node.written leaf segments = .ok new) : new.follow segments = .ok leaf := by
  obtain ⟨route, hroute, hwritten⟩ := writtenAt_of_written h
  have hend := hwritten.below []
  rw [List.append_nil] at hend
  exact follow_eq_ok_iff.2 ⟨route, hroute, hend⟩

/-- A write keeps the value to which other segments lead.  Where the two lists
part the write changes another child, and it pads no place that holds a
value. -/
theorem follow_written_of_apart {node leaf new value : Json} {p q : List Segment}
    (hp : ¬ p <+: q) (hq : ¬ q <+: p) (hvalue : node.follow p = .ok value)
    (h : node.written leaf q = .ok new) : new.follow p = .ok value := by
  induction p generalizing node new q with
  | nil => exact absurd List.nil_prefix hp
  | cons s p ih =>
    cases q with
    | nil => exact absurd List.nil_prefix hq
    | cons t q =>
      obtain ⟨child, hchild, hbelow⟩ := follow_cons_eq_ok_iff.1 hvalue
      obtain ⟨step, henter, hstep⟩ := enter_of_child? hchild
      obtain ⟨other, below, hother, hwritten, rfl⟩ := written_cons_eq_ok_iff.1 h
      rw [follow_cons_eq_ok_iff, child?_of_enter (enter_put henter other below)]
      by_cases heq : other = step
      · subst heq
        obtain rfl : s = t := enter_injective henter hother
        rw [List.cons_prefix_cons] at hp hq
        rw [childOrNew_of_step?_eq_some hstep] at hwritten
        exact ⟨below, step?_put_self (fits_of_enter henter) below,
          ih (fun hpq => hp ⟨rfl, hpq⟩) (fun hqp => hq ⟨rfl, hqp⟩) hbelow hwritten⟩
      · refine ⟨child, ?_, hbelow⟩
        have hpads : ¬ node.Pads other step := by
          intro hpads
          rw [(step?_put_of_pads hpads below).1] at hstep
          cases hstep
        rw [step?_put_of_ne heq hpads, hstep]

/-! ## Replacements -/

/-- To put another value in focus is to write it there. -/
theorem written_of_focus? {node value : Json} {put : Json → Json} {segments : List Segment}
    (h : node.focus? segments = some (value, put)) (new : Json) :
    node.written new segments = .ok (put new) := by
  induction segments generalizing node value put with
  | nil =>
    cases h
    rfl
  | cons segment rest ih =>
    cases node with
    | object members =>
      simp only [focus?, Option.bind_eq_bind, Option.bind_eq_some_iff] at h
      obtain ⟨child, hchild, ⟨found, inner⟩, hinner, heq⟩ := h
      cases heq
      have hstep : (Json.object members).step? (.key segment.text) = some child := hchild
      have hbelow := ih hinner
      rw [← childOrNew_of_step?_eq_some hstep] at hbelow
      exact written_cons_eq_ok_iff.2 ⟨_, _, rfl, hbelow, rfl⟩
    | array items =>
      simp only [focus?, Option.bind_eq_bind, Option.bind_eq_some_iff] at h
      obtain ⟨index, hindex, child, hchild, ⟨found, inner⟩, hinner, heq⟩ := h
      cases heq
      have hlt : index < items.length := (List.getElem?_eq_some_iff.1 hchild).1
      have hstep : (Json.array items).step? (.item index) = some child := hchild
      have henter : (Json.array items).enter segment = .ok (.item index) := by
        rw [enter_array hindex, if_pos (by omega)]
      have hbelow := ih hinner
      rw [← childOrNew_of_step?_eq_some hstep] at hbelow
      refine written_cons_eq_ok_iff.2 ⟨_, _, henter, hbelow, ?_⟩
      rw [put_item_of_lt hlt]
    | _ => cases h

end Json

/-! ## Operations -/

/-- One operation of a session. -/
inductive Operation where
  /-- A write along a path. -/
  | set (path : Path) (value : Document)
  /-- A replacement of the value to which a path leads. -/
  | replace (path : Path) (value : Document)

namespace Operation

/-- Where the operation puts its value. -/
def path : Operation → Path
  | .set path _ => path
  | .replace path _ => path

/-- The value that the operation puts there. -/
def value : Operation → Document
  | .set _ value => value
  | .replace _ value => value

/-- The document after the operation.  What a refused write leaves behind
counts, and a replacement that finds no value does nothing. -/
def apply (document : Document) : Operation → Document
  | .set path value => (document.set path value).document
  | .replace path value =>
    match document.focus? path with
    | none => document
    | some focus => focus.put value

/-- The write is not refused, or the replacement finds a value. -/
def takesEffect (document : Document) : Operation → Bool
  | .set path value => (document.set path value).error?.isNone
  | .replace path _ => (document.focus? path).isSome

end Operation

/-- The document after a session. -/
def Document.operate (document : Document) (operations : List Operation) : Document :=
  operations.foldl Operation.apply document

namespace Operation

variable {document : Document} {operation : Operation}

/-- An operation that takes effect does what a write does. -/
theorem written_of_takesEffect (h : operation.takesEffect document = true) :
    document.root.written operation.value.root operation.path.segments =
      .ok (operation.apply document).root := by
  cases operation with
  | set path value => exact Document.written_eq_ok_of_accepted (Option.isNone_iff_eq_none.1 h)
  | replace path value =>
    obtain ⟨focus, hfocus⟩ := Option.isSome_iff_exists.1 h
    show document.root.written value.root path.segments = .ok (apply document _).root
    rw [apply, hfocus]
    unfold Document.focus? at hfocus
    split at hfocus
    · cases hfocus
    · next found put hput =>
      cases hfocus
      exact Json.written_of_focus? hput value.root

/-- An operation that takes no effect leaves no trace. -/
theorem apply_of_no_effect (h : operation.takesEffect document = false) :
    operation.apply document = document := by
  cases operation with
  | set path value =>
    cases herror : (document.set path value).error? with
    | none =>
      rw [takesEffect, herror] at h
      cases h
    | some error =>
      obtain ⟨failure, hfailure, -⟩ := Document.error?_set_eq_some_iff.1 herror
      exact (Document.set_of_written_eq_error hfailure).2
  | replace path value =>
    have hnone : document.focus? path = none := by
      cases hfocus : document.focus? path with
      | none => rfl
      | some focus =>
        rw [takesEffect, hfocus] at h
        cases h
    rw [apply, hnone]

/-- An operation that takes effect puts its value at its path. -/
theorem get_apply (h : operation.takesEffect document = true) :
    ((operation.apply document).get operation.path).value = some operation.value :=
  Document.value_get_eq_some_iff.2 (Json.follow_written (written_of_takesEffect h))

/-- An operation keeps the value at every path apart from its own, if it takes
effect, and at every path if not. -/
theorem get_apply_of_apart {path : Path} {value : Document}
    (hvalue : (document.get path).value = some value)
    (h : operation.takesEffect document = true → path.Apart operation.path) :
    ((operation.apply document).get path).value = some value := by
  cases heffect : operation.takesEffect document with
  | false => rwa [apply_of_no_effect heffect]
  | true =>
    rw [Document.value_get_eq_some_iff] at hvalue ⊢
    exact Json.follow_written_of_apart (h heffect).1 (h heffect).2 hvalue
      (written_of_takesEffect heffect)

end Operation

/-! ## Whole sessions -/

namespace Document

/-- A session keeps a value as long as no operation takes effect at an
overlapping path.  The induction goes through the session from its start. -/
theorem get_operate {document value : Document} {path : Path} {operations : List Operation}
    (hvalue : (document.get path).value = some value)
    (h : ∀ between later rest, operations = between ++ later :: rest →
      later.takesEffect (document.operate between) = true → path.Apart later.path) :
    ((document.operate operations).get path).value = some value := by
  induction operations generalizing document with
  | nil => exact hvalue
  | cons first operations ih =>
    have hfirst : ((first.apply document).get path).value = some value :=
      Operation.get_apply_of_apart hvalue (h [] first operations rfl)
    refine ih hfirst fun between later rest heq heffect => ?_
    exact h (first :: between) later rest (congrArg (first :: ·) heq) heffect

/-- No update is lost: what an operation of a session has put at its path is
there at the end, if all later operations that take effect do so at paths that
are neither this path nor one above or below it. -/
theorem update_kept_until_overlap (document : Document) (before after : List Operation)
    (operation : Operation)
    (heffect : operation.takesEffect (document.operate before) = true)
    (hlater : ∀ between later rest, after = between ++ later :: rest →
      later.takesEffect (document.operate (before ++ operation :: between)) = true →
      operation.path.Apart later.path) :
    ((document.operate (before ++ operation :: after)).get operation.path).value =
      some operation.value := by
  have hsplit : ∀ rest, document.operate (before ++ operation :: rest) =
      (operation.apply (document.operate before)).operate rest := by
    intro rest
    rw [operate, List.foldl_append, List.foldl_cons]
    rfl
  rw [hsplit]
  refine get_operate (Operation.get_apply heffect) fun between later rest heq hin => ?_
  rw [← hsplit] at hin
  exact hlater between later rest heq hin

/-- The first item of the list of `oneItem`. -/
def nearItem : Path := listPath.push (.ofIndex 0)

/-- A write past the end of the list pads the item before it, so that a later
write below that item is refused.  A replacement of the first item takes
effect apart from both. -/
theorem update_kept_until_overlap_far_item :
    Operation.takesEffect oneItem (.set farItem (.bool true)) = true ∧
      Operation.takesEffect (oneItem.operate [.set farItem (.bool true)])
        (.set nearMember .null) = false ∧
      farItem.Apart nearItem ∧
      ((oneItem.operate [.set farItem (.bool true), .set nearMember .null,
        .replace nearItem (.bool false)]).get farItem).value = some (.bool true) := by
  have heffect : Operation.takesEffect oneItem (.set farItem (.bool true)) = true := by decide
  have hrefused : Operation.takesEffect (oneItem.operate [.set farItem (.bool true)])
      (.set nearMember .null) = false := by decide
  have hapart : farItem.Apart nearItem := ⟨by decide, by decide⟩
  refine ⟨heffect, hrefused, hapart, ?_⟩
  refine update_kept_until_overlap oneItem []
    [.set nearMember .null, .replace nearItem (.bool false)] (.set farItem (.bool true))
    heffect fun between later rest heq hin => ?_
  rcases between with _ | ⟨first, _ | ⟨second, between⟩⟩
  · obtain ⟨rfl, -⟩ := List.cons.inj heq
    cases hrefused.symm.trans hin
  · obtain ⟨rfl, -⟩ := List.cons.inj (List.cons.inj heq).2
    exact hapart
  · simp at heq

end Document

end Dotted
