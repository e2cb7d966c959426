import Dotted.Proofs.Index
import Dotted.Proofs.Written

/-!
# Writes along two paths

Two paths of which neither is a prefix of the other fork: they share their
first segments and go on with two different ones.  Writes along them change
different children of one node, so that they can be made in either order.

There is one exception.  If both go on past the end of one array, then the
write at the larger position puts a `null` at the smaller one.  A write that
only replaces this `null` is not hindered, but one that goes on below it is
refused.

* `Fork` describes the two paths, and `Json.Obstructs` the exception.
* `written_put_eq_ok_iff` is the case where the paths fork at the root, and
  `written_written_of_fork` goes down to the fork.
* `set_set_comm_unless_past_end` states both cases for `Document.set`.
-/

namespace Dotted

/-- Two lists of segments agree on `common` and then part: `p` goes on with
`s` and `q` with `t`. -/
structure Fork (p q common : List Segment) (s t : Segment) (pRest qRest : List Segment) :
    Prop where
  left : p = common ++ s :: pRest
  right : q = common ++ t :: qRest
  apart : s ≠ t

/-- Two lists of which neither is a prefix of the other fork. -/
theorem exists_fork {p q : List Segment} (hp : ¬ p <+: q) (hq : ¬ q <+: p) :
    ∃ common s t pRest qRest, Fork p q common s t pRest qRest := by
  induction p generalizing q with
  | nil => exact absurd List.nil_prefix hp
  | cons s p ih =>
    cases q with
    | nil => exact absurd List.nil_prefix hq
    | cons t q =>
      by_cases heq : s = t
      · subst heq
        rw [List.cons_prefix_cons] at hp hq
        obtain ⟨common, first, second, pRest, qRest, hleft, hright, hne⟩ :=
          ih (fun h => hp ⟨rfl, h⟩) (fun h => hq ⟨rfl, h⟩)
        refine ⟨s :: common, first, second, pRest, qRest, ?_, ?_, hne⟩
        · rw [hleft, List.cons_append]
        · rw [hright, List.cons_append]
      · exact ⟨[], s, t, p, q, rfl, rfl, heq⟩

/-- Two lists fork in one way only. -/
theorem Fork.unique {p q common other : List Segment} {s t first second : Segment}
    {pRest qRest pOther qOther : List Segment} (h : Fork p q common s t pRest qRest)
    (hother : Fork p q other first second pOther qOther) :
    common = other ∧ s = first ∧ t = second ∧ pRest = pOther ∧ qRest = qOther := by
  obtain ⟨rfl, rfl, hne⟩ := h
  obtain ⟨hleft, hright, hdiffer⟩ := hother
  induction common generalizing other with
  | nil =>
    cases other with
    | nil =>
      obtain ⟨rfl, rfl⟩ := List.cons.inj hleft
      obtain ⟨rfl, rfl⟩ := List.cons.inj hright
      exact ⟨rfl, rfl, rfl, rfl, rfl⟩
    | cons segment other =>
      have hs : s = segment := (List.cons.inj hleft).1
      have ht : t = segment := (List.cons.inj hright).1
      exact absurd (hs.trans ht.symm) hne
  | cons segment common ih =>
    cases other with
    | nil =>
      have hfirst : segment = first := (List.cons.inj hleft).1
      have hsecond : segment = second := (List.cons.inj hright).1
      exact absurd (hfirst.symm.trans hsecond) hdiffer
    | cons head other =>
      obtain ⟨rfl, hbelow⟩ := List.cons.inj hleft
      obtain ⟨rfl, hrest⟩ := ih hbelow (List.cons.inj hright).2
      exact ⟨rfl, hrest⟩

namespace Json

/-- The segments in `common` lead to an array, and `s` and `t` denote
positions `i` and `j` past its end. -/
def PastEnd (node : Json) (common : List Segment) (s t : Segment) (i j : Nat) : Prop :=
  ∃ items, node.follow common = .ok (.array items) ∧ s.index? = some i ∧ t.index? = some j ∧
    items.length ≤ i ∧ items.length ≤ j

/-- A write that goes on with `s` after `common` puts a `null` in the way of a
write that goes on with `t` and then with `rest`. -/
def Obstructs (node : Json) (common : List Segment) (s t : Segment) (rest : List Segment) :
    Prop :=
  (∃ i j, node.PastEnd common s t i j ∧ j < i) ∧ rest ≠ []

theorem PastEnd.symm {node : Json} {common : List Segment} {s t : Segment} {i j : Nat}
    (h : node.PastEnd common s t i j) : node.PastEnd common t s j i := by
  obtain ⟨items, hfollow, hs, ht, hi, hj⟩ := h
  exact ⟨items, hfollow, ht, hs, hj, hi⟩

/-- Past the end of an array the larger position obstructs the smaller one. -/
theorem PastEnd.obstructs_iff {node : Json} {common : List Segment} {s t : Segment} {i j : Nat}
    (h : node.PastEnd common s t i j) (rest : List Segment) :
    node.Obstructs common s t rest ↔ j < i ∧ rest ≠ [] := by
  constructor
  · intro hobstructs
    obtain ⟨⟨k, l, ⟨items, -, hk, hl, -, -⟩, hlt⟩, hrest⟩ := hobstructs
    obtain ⟨items, -, hi, hj, -, -⟩ := h
    obtain rfl := Option.some.inj (hi.symm.trans hk)
    obtain rfl := Option.some.inj (hj.symm.trans hl)
    exact ⟨hlt, hrest⟩
  · intro hboth
    obtain ⟨hlt, hrest⟩ := hboth
    exact ⟨⟨i, j, h, hlt⟩, hrest⟩

/-! ## Two segments of one node -/

/-- Different segments are different steps. -/
theorem enter_injective {node : Json} {s t : Segment} {step : Step}
    (hs : node.enter s = .ok step) (ht : node.enter t = .ok step) : s = t := by
  have hstep : node.stepOf? s = some step := stepOf?_of_enter hs
  have hother : node.stepOf? t = some step := stepOf?_of_enter ht
  cases node with
  | object members =>
    have hkeys : Step.key s.text = .key t.text := Option.some.inj (hstep.trans hother.symm)
    exact Segment.ext_text (Step.key.inj hkeys)
  | array items =>
    obtain ⟨i, hi, rfl⟩ := Option.map_eq_some_iff.1 hstep
    obtain ⟨j, hj, heq⟩ := Option.map_eq_some_iff.1 hother
    rw [Step.item.inj heq] at hj
    exact Segment.index?_injective hi hj
  | _ => cases hstep

/-- One segment pads the other in a node exactly if both are past its end and
the other is the smaller one. -/
theorem pads_iff_pastEnd {node : Json} {s t : Segment} {step other : Step}
    (hs : node.enter s = .ok step) (ht : node.enter t = .ok other) :
    node.Pads step other ↔ ∃ i j, node.PastEnd [] s t i j ∧ j < i := by
  have hstep : node.stepOf? s = some step := stepOf?_of_enter hs
  have hother : node.stepOf? t = some other := stepOf?_of_enter ht
  constructor
  · intro hpads
    obtain ⟨items, i, j, rfl, rfl, rfl, hlength, hlt⟩ := hpads
    obtain ⟨index, hi, hindex⟩ := Option.map_eq_some_iff.1 hstep
    obtain ⟨position, hj, hposition⟩ := Option.map_eq_some_iff.1 hother
    rw [Step.item.inj hindex] at hi
    rw [Step.item.inj hposition] at hj
    exact ⟨i, j, ⟨items, rfl, hi, hj, by omega, hlength⟩, hlt⟩
  · intro hpast
    obtain ⟨i, j, ⟨items, hnode, hi, hj, -, hlength⟩, hlt⟩ := hpast
    cases hnode
    rw [stepOf?, hi] at hstep
    rw [stepOf?, hj] at hother
    cases hstep
    cases hother
    exact ⟨items, i, j, rfl, rfl, rfl, hlength, hlt⟩

/-- What a write finds below a node is where reads find it too. -/
theorem follow_childOrNew_eq_array_iff {node : Json} {segment : Segment} {step : Step}
    (h : node.enter segment = .ok step) (rest : List Segment) (items : List Json) :
    (node.childOrNew step).follow rest = .ok (.array items) ↔
      node.follow (segment :: rest) = .ok (.array items) := by
  rw [follow_cons_eq_ok_iff, child?_of_enter h, childOrNew]
  cases node.step? step with
  | some child => simp
  | none =>
    constructor
    · intro hfollow
      cases rest <;> cases hfollow
    · intro hfound
      obtain ⟨child, hchild, -⟩ := hfound
      cases hchild

theorem pastEnd_childOrNew_iff {node : Json} {segment : Segment} {step : Step}
    (h : node.enter segment = .ok step) (common : List Segment) (s t : Segment) (i j : Nat) :
    (node.childOrNew step).PastEnd common s t i j ↔
      node.PastEnd (segment :: common) s t i j := by
  unfold PastEnd
  simp only [follow_childOrNew_eq_array_iff h]

/-! ## Two writes to one node -/

/-- A write to a child that was just put there is a write to that child. -/
theorem written_put_self_eq_ok_iff {node child leaf new : Json} {segment : Segment}
    {step : Step} (h : node.enter segment = .ok step) (rest : List Segment) :
    (node.put step child).written leaf (segment :: rest) = .ok new ↔
      ∃ below, child.written leaf rest = .ok below ∧ new = node.put step below := by
  have hdown : (node.put step child).childOrNew step = child :=
    childOrNew_of_step?_eq_some (step?_put_self (fits_of_enter h) child)
  rw [written_cons_eq_ok_iff]
  constructor
  · intro hwrite
    obtain ⟨other, below, hother, hbelow, rfl⟩ := hwrite
    rw [enter_put h] at hother
    cases hother
    rw [hdown] at hbelow
    exact ⟨below, hbelow, put_put node step child below⟩
  · intro hput
    obtain ⟨below, hbelow, rfl⟩ := hput
    rw [← hdown] at hbelow
    exact ⟨step, below, enter_put h step child, hbelow, (put_put node step child below).symm⟩

/-- A write that succeeds on a node succeeds after a `put` one step elsewhere,
and puts the same value in, unless it has to go on below a `null` which that
`put` has made. -/
theorem written_put_eq_ok_iff {node child leaf below new : Json} {segment : Segment}
    {step other : Step} {rest : List Segment} (hne : step ≠ other)
    (henter : node.enter segment = .ok other)
    (hbelow : (node.childOrNew other).written leaf rest = .ok below) :
    (node.put step child).written leaf (segment :: rest) = .ok new ↔
      ¬ (node.Pads step other ∧ rest ≠ []) ∧ new = (node.put step child).put other below := by
  rw [written_cons_of_enter (enter_put henter step child)]
  by_cases hpads : node.Pads step other
  · have hdown : (node.put step child).childOrNew other = .null :=
      childOrNew_of_step?_eq_some (step?_put_of_pads hpads child).2
    rw [hdown]
    cases rest with
    | nil =>
      cases hbelow
      simp [written, Except.map, Except.mapError, eq_comm]
    | cons next rest =>
      have hrefused : Json.null.enter next = .error (.notAContainer .null) := rfl
      rw [written_cons_of_refused hrefused]
      simp [Except.map, Except.mapError, hpads]
  · have hdown : (node.put step child).childOrNew other = node.childOrNew other := by
      rw [childOrNew, step?_put_of_ne hne hpads, childOrNew]
    rw [hdown, hbelow]
    simp [Except.map, Except.mapError, hpads, eq_comm]

/-- Two writes that fork give one value in either order, each order unless the
first write obstructs the second.  The induction goes down the segments that
both share; below them the two put values at different steps. -/
theorem written_written_of_fork {node v w a b : Json} {p q common : List Segment}
    {s t : Segment} {pRest qRest : List Segment} (hfork : Fork p q common s t pRest qRest)
    (ha : node.written v p = .ok a) (hb : node.written w q = .ok b) :
    ∃ both,
      (∀ new, a.written w q = .ok new ↔ ¬ node.Obstructs common s t qRest ∧ new = both) ∧
      ∀ new, b.written v p = .ok new ↔ ¬ node.Obstructs common t s pRest ∧ new = both := by
  obtain ⟨rfl, rfl, hne⟩ := hfork
  induction common generalizing node a b with
  | nil =>
    obtain ⟨step, child, hs, hchild, rfl⟩ := written_cons_eq_ok_iff.1 ha
    obtain ⟨other, below, ht, hbelow, rfl⟩ := written_cons_eq_ok_iff.1 hb
    have hsteps : step ≠ other := by
      intro heq
      subst heq
      exact hne (enter_injective hs ht)
    refine ⟨(node.put step child).put other below, fun new => ?_, fun new => ?_⟩
    · rw [List.nil_append, written_put_eq_ok_iff hsteps ht hbelow, Obstructs,
        pads_iff_pastEnd hs ht]
    · rw [List.nil_append, written_put_eq_ok_iff hsteps.symm hs hchild, Obstructs,
        pads_iff_pastEnd ht hs, put_comm hsteps]
  | cons segment common ih =>
    obtain ⟨step, child, henter, hchild, rfl⟩ := written_cons_eq_ok_iff.1 ha
    obtain ⟨other, below, hother, hbelow, rfl⟩ := written_cons_eq_ok_iff.1 hb
    rw [henter] at hother
    cases hother
    obtain ⟨both, hleft, hright⟩ := ih hchild hbelow
    have hobstructs : ∀ first second rest,
        (node.childOrNew step).Obstructs common first second rest ↔
          node.Obstructs (segment :: common) first second rest := by
      intro first second rest
      unfold Obstructs
      simp only [pastEnd_childOrNew_iff henter]
    refine ⟨node.put step both, fun new => ?_, fun new => ?_⟩
    · rw [List.cons_append, written_put_self_eq_ok_iff henter, ← hobstructs]
      simp only [hleft]
      simp
    · rw [List.cons_append, written_put_self_eq_ok_iff henter, ← hobstructs]
      simp only [hright]
      simp

end Json

namespace Document

/-- Two successful writes along paths that fork: each order succeeds unless
the first write obstructs the second, and the order leaves no trace. -/
theorem set_set_of_fork {document v w : Document} {p q : Path} {common : List Segment}
    {s t : Segment} {pRest qRest : List Segment}
    (hfork : Fork p.segments q.segments common s t pRest qRest)
    (hp : (document.set p v).error? = none) (hq : (document.set q w).error? = none) :
    (((document.set p v).document.set q w).error? = none ↔
        ¬ document.root.Obstructs common s t qRest) ∧
      (((document.set q w).document.set p v).error? = none ↔
        ¬ document.root.Obstructs common t s pRest) ∧
      (((document.set p v).document.set q w).error? = none →
        ((document.set q w).document.set p v).error? = none →
        ((document.set p v).document.set q w).document =
          ((document.set q w).document.set p v).document) := by
  obtain ⟨a, ha⟩ := error?_set_eq_none_iff.1 hp
  obtain ⟨b, hb⟩ := error?_set_eq_none_iff.1 hq
  obtain ⟨both, hleft, hright⟩ := Json.written_written_of_fork hfork ha hb
  rw [← (set_of_written_eq_ok ha).2] at hleft
  rw [← (set_of_written_eq_ok hb).2] at hright
  refine ⟨?_, ?_, ?_⟩
  · rw [error?_set_eq_none_iff]
    simp [hleft]
  · rw [error?_set_eq_none_iff]
    simp [hright]
  · intro hpq hqp
    obtain ⟨new, hnew⟩ := error?_set_eq_none_iff.1 hpq
    obtain ⟨other, hother⟩ := error?_set_eq_none_iff.1 hqp
    refine ext_root ?_
    rw [(set_of_written_eq_ok hnew).2, (set_of_written_eq_ok hother).2, ((hleft new).1 hnew).2,
      ((hright other).1 hother).2]

/-- Two writes of which neither path is a prefix of the other can be made in
either order, with the same document at the end.  If both paths go on past the
end of one array, the smaller position can always be written first, and it can
be written second exactly if its path ends there. -/
theorem set_set_comm_unless_past_end (document v w : Document) (p q : Path)
    (hpq : ¬ p.segments <+: q.segments) (hqp : ¬ q.segments <+: p.segments)
    (hp : (document.set p v).error? = none) (hq : (document.set q w).error? = none) :
    ∃ common s t pRest qRest, Fork p.segments q.segments common s t pRest qRest ∧
      ((∀ i j, ¬ document.root.PastEnd common s t i j) →
        ((document.set p v).document.set q w).error? = none ∧
          ((document.set q w).document.set p v).error? = none) ∧
      (∀ i j, document.root.PastEnd common s t i j → i ≠ j ∧
        (i < j → ((document.set p v).document.set q w).error? = none ∧
          (((document.set q w).document.set p v).error? = none ↔ pRest = [])) ∧
        (j < i → ((document.set q w).document.set p v).error? = none ∧
          (((document.set p v).document.set q w).error? = none ↔ qRest = []))) ∧
      (((document.set p v).document.set q w).error? = none →
        ((document.set q w).document.set p v).error? = none →
        ((document.set p v).document.set q w).document =
          ((document.set q w).document.set p v).document) := by
  obtain ⟨common, s, t, pRest, qRest, hfork⟩ := exists_fork hpq hqp
  obtain ⟨hleft, hright, hsame⟩ := set_set_of_fork hfork hp hq
  refine ⟨common, s, t, pRest, qRest, hfork, ?_, ?_, hsame⟩
  · intro hnot
    rw [hleft, hright]
    constructor
    · intro hobstructs
      obtain ⟨⟨i, j, hpast, -⟩, -⟩ := hobstructs
      exact hnot i j hpast
    · intro hobstructs
      obtain ⟨⟨i, j, hpast, -⟩, -⟩ := hobstructs
      exact hnot j i hpast.symm
  · intro i j hpast
    have hne : i ≠ j := by
      obtain ⟨items, -, hs, ht, -, -⟩ := hpast
      intro heq
      subst heq
      exact hfork.apart (Segment.index?_injective hs ht)
    rw [hleft, hright, hpast.obstructs_iff, hpast.symm.obstructs_iff]
    refine ⟨hne, fun hlt => ⟨?_, ?_⟩, fun hlt => ⟨?_, ?_⟩⟩
    · intro hobstructs
      obtain ⟨hgt, -⟩ := hobstructs
      omega
    · simp [hlt]
    · intro hobstructs
      obtain ⟨hgt, -⟩ := hobstructs
      omega
    · simp [hlt]

/-- A list of one item. -/
def oneItem : Document := .object [("items", .array [.null])]

/-- The list itself. -/
def listPath : Path := .single ⟨"items", by decide, by decide⟩

/-- A member of the item right after the one of `oneItem`. -/
def nearMember : Path := (listPath.push (.ofIndex 1)).push ⟨"x", by decide, by decide⟩

/-- An item further on. -/
def farItem : Path := listPath.push (.ofIndex 3)

theorem set_set_comm_unless_past_end_near_far :
    (¬ nearMember.segments <+: farItem.segments ∧ ¬ farItem.segments <+: nearMember.segments ∧
        (oneItem.set nearMember .null).error? = none ∧
        (oneItem.set farItem .null).error? = none) ∧
      ((oneItem.set nearMember .null).document.set farItem .null).error? = none ∧
      ((oneItem.set farItem .null).document.set nearMember .null).error? ≠ none := by
  have hpq : ¬ nearMember.segments <+: farItem.segments := by decide
  have hqp : ¬ farItem.segments <+: nearMember.segments := by decide
  have hp : (oneItem.set nearMember .null).error? = none := by decide
  have hq : (oneItem.set farItem .null).error? = none := by decide
  obtain ⟨common, s, t, pRest, qRest, hfork, -, hpast, -⟩ :=
    set_set_comm_unless_past_end oneItem .null .null nearMember farItem hpq hqp hp hq
  have hknown : Fork nearMember.segments farItem.segments listPath.segments (.ofIndex 1)
      (.ofIndex 3) [⟨"x", by decide, by decide⟩] [] := ⟨rfl, rfl, by decide⟩
  obtain ⟨rfl, rfl, rfl, rfl, rfl⟩ := hfork.unique hknown
  have harray : oneItem.root.PastEnd listPath.segments (.ofIndex 1) (.ofIndex 3) 1 3 :=
    ⟨[.null], rfl, by decide, by decide, by decide, by decide⟩
  obtain ⟨-, hnear, -⟩ := hpast 1 3 harray
  obtain ⟨hfirst, hsecond⟩ := hnear (by decide)
  refine ⟨⟨hpq, hqp, hp, hq⟩, hfirst, ?_⟩
  intro hnone
  cases hsecond.1 hnone

end Document

end Dotted
