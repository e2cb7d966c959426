import Dotted.Proofs.ByteOrder
import Dotted.Proofs.Commute
import Dotted.Proofs.Walk

/-!
# The order of a walk

A walk comes to a value before it goes on to what is below it, and it is done
with one child of a node before it comes to the next one.  So the paths that it
writes down are in order: a path comes before those that go on from its end,
and two paths that fork are in the order of the segments with which they part.

* `Json.Smaller` orders the segments in one node, and `Json.Precedes` the
  paths below it.  `Json.Precedes.not_prefix`: no path precedes one that it
  goes on from.
* `Json.pairwise_visitsAt` is the order at one child and below it,
  `Json.pairwise_visits_array` and `Json.pairwise_visits_object` put the
  children together, and `Json.pairwise_visits` goes down the value.
* `Json.Precedes.trans` and `Json.precedes_total`: on the paths that lead to a
  value this is a total order.  Both go down the paths, where
  `Json.precedes_cons_iff` and `Json.precedes_cons_iff_of_ne` take one step.
* `Document.pairwise_pathsWhere` is the same for lists of paths.  From it come
  `Document.nodup_pathsWhere` and `Document.mem_before_of_prefix`, and
  `Document.paths_strictly_increasing` puts all of it together.
-/

namespace Dotted

/-- Of two lists that fork, neither goes on from the other. -/
theorem Fork.not_prefix {p q common : List Segment} {s t : Segment} {pRest qRest : List Segment}
    (h : Fork p q common s t pRest qRest) : ¬ q <+: p := by
  obtain ⟨rfl, rfl, hne⟩ := h
  rw [List.prefix_append_right_inj, List.cons_prefix_cons]
  exact fun hbegins => hne hbegins.1.symm

namespace Json

/-- In the node, `s` is a smaller segment than `t`: in an object its bytes come
first, and in an array its index. -/
def Smaller : Json → Segment → Segment → Prop
  | .object _, s, t => Text.bytes s.text < Text.bytes t.text
  | .array _, s, t => ∃ i j, s.index? = some i ∧ t.index? = some j ∧ i < j
  | _, _, _ => False

/-- Below the node, `p` comes before `q`: either `q` goes on from `p`, or the
two fork, and at the fork `p` takes the smaller segment. -/
def Precedes (node : Json) (p q : List Segment) : Prop :=
  (p <+: q ∧ p ≠ q) ∨
    ∃ common s t pRest qRest value, Fork p q common s t pRest qRest ∧
      node.follow common = .ok value ∧ value.Smaller s t

variable {node child : Json} {segment s t : Segment} {p q : List Segment}

theorem Smaller.ne (h : node.Smaller s t) : s ≠ t := by
  rintro rfl
  cases node with
  | object members => exact List.lt_irrefl _ h
  | array items =>
    obtain ⟨i, j, hi, hj, hlt⟩ := h
    obtain rfl := Option.some.inj (hi.symm.trans hj)
    exact Nat.lt_irrefl i hlt
  | _ => exact h

theorem Smaller.trans {u : Segment} (h : node.Smaller s t) (hmore : node.Smaller t u) :
    node.Smaller s u := by
  cases node with
  | object members => exact List.lt_trans h hmore
  | array items =>
    obtain ⟨i, j, hi, hj, hlt⟩ := h
    obtain ⟨k, l, hk, hl, hmore⟩ := hmore
    obtain rfl := Option.some.inj (hj.symm.trans hk)
    exact ⟨i, l, hi, hl, Nat.lt_trans hlt hmore⟩
  | _ => exact h.elim

/-- Of two segments that select something in a node, one is the smaller. -/
theorem smaller_total {other : Json} (hs : node.child? s = some child)
    (ht : node.child? t = some other) (hne : s ≠ t) : node.Smaller s t ∨ node.Smaller t s := by
  cases node with
  | object members =>
    have htext : s.text ≠ t.text := fun heq => hne (Segment.ext_text heq)
    by_cases hlt : s.text < t.text
    · exact Or.inl (Text.bytes_lt_bytes hlt)
    · exact Or.inr (Text.bytes_lt_bytes (Members.lt_of_not_lt_of_ne hlt htext))
  | array items =>
    obtain ⟨i, hi, -⟩ := Option.bind_eq_some_iff.1 hs
    obtain ⟨j, hj, -⟩ := Option.bind_eq_some_iff.1 ht
    have hindex : i ≠ j := fun heq => hne (Segment.index?_injective hi (heq ▸ hj))
    rcases Nat.lt_or_gt_of_ne hindex with hlt | hgt
    · exact Or.inl ⟨i, j, hi, hj, hlt⟩
    · exact Or.inr ⟨j, i, hj, hi, hgt⟩
  | _ => cases hs

theorem Precedes.not_prefix (h : node.Precedes p q) : ¬ q <+: p := by
  intro hbegins
  rcases h with ⟨hbelow, hne⟩ | ⟨common, s, t, pRest, qRest, value, hfork, -, -⟩
  · exact hne (hbelow.eq_of_length (Nat.le_antisymm hbelow.length_le hbegins.length_le))
  · exact hfork.not_prefix hbegins

/-- A segment comes before all that goes on from it. -/
theorem precedes_single (hne : q ≠ []) : node.Precedes [s] (s :: q) := by
  refine Or.inl ⟨List.prefix_append [s] q, fun heq => hne ?_⟩
  exact (List.cons.inj heq).2.symm

theorem precedes_of_smaller (h : node.Smaller s t) : node.Precedes (s :: p) (t :: q) :=
  Or.inr ⟨[], s, t, p, q, node, ⟨rfl, rfl, h.ne⟩, rfl, h⟩

/-- The order below a child is the order below the node. -/
theorem Precedes.cons (hchild : node.child? segment = some child) (h : child.Precedes p q) :
    node.Precedes (segment :: p) (segment :: q) := by
  rcases h with ⟨hbegins, hne⟩ | ⟨common, s, t, pRest, qRest, value, hfork, hvalue, hsmaller⟩
  · refine Or.inl ⟨List.cons_prefix_cons.2 ⟨rfl, hbegins⟩, fun heq => hne ?_⟩
    exact (List.cons.inj heq).2
  · refine Or.inr ⟨segment :: common, s, t, pRest, qRest, value, ?_, ?_, hsmaller⟩
    · exact ⟨congrArg _ hfork.left, congrArg _ hfork.right, hfork.apart⟩
    · exact follow_cons_eq_ok_iff.2 ⟨child, hchild, hvalue⟩

/-! ## A total order -/

/-- Nothing precedes the node itself. -/
theorem not_precedes_nil : ¬ node.Precedes p [] :=
  fun h => h.not_prefix List.nil_prefix

/-- Paths through one child are in the order that they have below the child. -/
theorem precedes_cons_iff (hchild : node.child? segment = some child) :
    node.Precedes (segment :: p) (segment :: q) ↔ child.Precedes p q := by
  refine ⟨fun h => ?_, Precedes.cons hchild⟩
  rcases h with ⟨hbegins, hne⟩ | ⟨common, s, t, pRest, qRest, value, hfork, hvalue, hsmaller⟩
  · refine Or.inl ⟨(List.cons_prefix_cons.1 hbegins).2, fun heq => hne ?_⟩
    rw [heq]
  · obtain ⟨hp, hq, hne⟩ := hfork
    cases common with
    | nil => exact absurd ((List.cons.inj hp).1.symm.trans (List.cons.inj hq).1) hne
    | cons first common =>
      obtain ⟨rfl, hpBelow⟩ := List.cons.inj hp
      obtain ⟨-, hqBelow⟩ := List.cons.inj hq
      obtain ⟨other, hother, hbelow⟩ := follow_cons_eq_ok_iff.1 hvalue
      obtain rfl := Option.some.inj (hchild.symm.trans hother)
      exact Or.inr ⟨common, s, t, pRest, qRest, value, ⟨hpBelow, hqBelow, hne⟩, hbelow, hsmaller⟩

/-- Paths through two children are in the order of their first segments. -/
theorem precedes_cons_iff_of_ne (hne : s ≠ t) :
    node.Precedes (s :: p) (t :: q) ↔ node.Smaller s t := by
  refine ⟨fun h => ?_, precedes_of_smaller⟩
  rcases h with ⟨hbegins, -⟩ | ⟨common, first, second, pRest, qRest, value, hfork, hvalue, hsmaller⟩
  · exact absurd (List.cons_prefix_cons.1 hbegins).1 hne
  · have hhere : Fork (s :: p) (t :: q) [] s t p q := ⟨rfl, rfl, hne⟩
    obtain ⟨rfl, rfl, rfl, -, -⟩ := hfork.unique hhere
    cases hvalue
    exact hsmaller

/-- The induction goes down `p`, as long as all three go on with the same
segment; where they do not, the segments decide. -/
theorem Precedes.trans {r : List Segment} {value : Json} (hp : node.follow p = .ok value)
    (h : node.Precedes p q) (hmore : node.Precedes q r) : node.Precedes p r := by
  induction p generalizing node q r with
  | nil =>
    refine Or.inl ⟨List.nil_prefix, ?_⟩
    rintro rfl
    exact not_precedes_nil hmore
  | cons s p ih =>
    cases q with
    | nil => exact absurd h not_precedes_nil
    | cons t q =>
      cases r with
      | nil => exact absurd hmore not_precedes_nil
      | cons u r =>
        by_cases hst : s = t
        · subst hst
          by_cases hsu : s = u
          · subst hsu
            obtain ⟨child, hchild, hbelow⟩ := follow_cons_eq_ok_iff.1 hp
            rw [precedes_cons_iff hchild] at h hmore ⊢
            exact ih hbelow h hmore
          · exact precedes_of_smaller ((precedes_cons_iff_of_ne hsu).1 hmore)
        · have hsmaller := (precedes_cons_iff_of_ne hst).1 h
          by_cases htu : t = u
          · subst htu
            exact precedes_of_smaller hsmaller
          · exact precedes_of_smaller (hsmaller.trans ((precedes_cons_iff_of_ne htu).1 hmore))

/-- Of two paths that lead to values, one precedes the other. -/
theorem precedes_total {value other : Json} (hp : node.follow p = .ok value)
    (hq : node.follow q = .ok other) : node.Precedes p q ∨ p = q ∨ node.Precedes q p := by
  induction p generalizing node q with
  | nil =>
    cases q with
    | nil => exact Or.inr (Or.inl rfl)
    | cons t q => exact Or.inl (Or.inl ⟨List.nil_prefix, (List.cons_ne_nil t q).symm⟩)
  | cons s p ih =>
    cases q with
    | nil => exact Or.inr (Or.inr (Or.inl ⟨List.nil_prefix, (List.cons_ne_nil s p).symm⟩))
    | cons t q =>
      obtain ⟨child, hchild, hbelow⟩ := follow_cons_eq_ok_iff.1 hp
      obtain ⟨sibling, hsibling, hbeside⟩ := follow_cons_eq_ok_iff.1 hq
      by_cases heq : s = t
      · subst heq
        obtain rfl := Option.some.inj (hchild.symm.trans hsibling)
        rw [precedes_cons_iff hchild, precedes_cons_iff hchild, List.cons.injEq]
        rcases ih hbelow hbeside with hbefore | rfl | hafter
        · exact Or.inl hbefore
        · exact Or.inr (Or.inl ⟨rfl, rfl⟩)
        · exact Or.inr (Or.inr hafter)
      · rcases smaller_total hchild hsibling heq with hsmaller | hlarger
        · exact Or.inl (precedes_of_smaller hsmaller)
        · exact Or.inr (Or.inr (precedes_of_smaller hlarger))

end Json

/-- If both steps of a walk from the node reach values, the path of the first
precedes the path of the second. -/
def Visit.InOrder (node : Json) (first second : Visit) : Prop :=
  ∀ p value q wanted, first = .reached p value → second = .reached q wanted →
    node.Precedes p.segments q.segments

namespace Json

variable {node child : Json} {segment s t : Segment}

theorem segments_of_mem_visitsAt {path : Path} {value : Json}
    (h : .reached path value ∈ child.visitsAt segment) :
    ∃ rest, path.segments = segment :: rest := by
  rcases reached_mem_visitsAt_iff.1 h with ⟨rfl, -⟩ | ⟨below, rfl, -⟩
  · exact ⟨[], rfl⟩
  · exact ⟨below.segments, rfl⟩

/-- At a child and below it a walk goes in order if a walk from the child
does. -/
theorem pairwise_visitsAt (hchild : node.child? segment = some child)
    (h : child.visits.Pairwise (Visit.InOrder child)) :
    (child.visitsAt segment).Pairwise (Visit.InOrder node) := by
  refine List.pairwise_cons.2 ⟨fun visit hvisit => ?_, List.pairwise_map.2 (h.imp ?_)⟩
  · obtain ⟨below, -, rfl⟩ := List.mem_map.1 hvisit
    rintro p value q wanted hp hq
    cases hp
    obtain ⟨path, rfl, -⟩ := Visit.below_eq_reached_iff.1 hq
    exact precedes_single path.nonempty
  · intro first second hinOrder p value q wanted hp hq
    obtain ⟨path, rfl, hfirst⟩ := Visit.below_eq_reached_iff.1 hp
    obtain ⟨other, rfl, hsecond⟩ := Visit.below_eq_reached_iff.1 hq
    exact (hinOrder path value other wanted hfirst hsecond).cons hchild

/-- A walk through a child with a smaller segment comes before a walk through
one with a larger segment. -/
theorem inOrder_of_smaller {first second : Visit} {value other : Json} (h : node.Smaller s t)
    (hfirst : first ∈ value.visitsAt s) (hsecond : second ∈ other.visitsAt t) :
    Visit.InOrder node first second := by
  rintro p found q wanted rfl rfl
  obtain ⟨pRest, hp⟩ := segments_of_mem_visitsAt hfirst
  obtain ⟨qRest, hq⟩ := segments_of_mem_visitsAt hsecond
  rw [hp, hq]
  exact precedes_of_smaller h

/-- The positions of items are counted up. -/
theorem pairwise_zipIdx_positions (items : List Json) :
    items.zipIdx.Pairwise fun first second => first.2 < second.2 := by
  have hcount : (items.zipIdx.map Prod.snd).Pairwise (· < ·) := by
    rw [List.zipIdx_map_snd]
    exact List.pairwise_lt_range'
  exact List.pairwise_map.1 hcount

/-- A walk through an array goes in order if the walks from its items do.  Two
items are in order because positions are counted up. -/
theorem pairwise_visits_array {items : List Json} (hindexable : Indexable (.array items))
    (h : ∀ item ∈ items, item.visits.Pairwise (Visit.InOrder item)) :
    (array items).visits.Pairwise (Visit.InOrder (.array items)) := by
  have hindex : ∀ item ∈ items.zipIdx, items[item.2]? = some item.1 ∧
      (Segment.ofIndex item.2).index? = some item.2 := by
    intro item hitem
    have hfound := List.mk_mem_zipIdx_iff_getElem?.1 hitem
    have hlt : item.2 < items.length := (List.getElem?_eq_some_iff.1 hfound).1
    exact ⟨hfound, Segment.index?_ofIndex (Nat.lt_trans hlt hindexable.length)⟩
  rw [visits, itemVisits_eq_flatMap, List.pairwise_flatMap]
  constructor
  · intro item hitem
    obtain ⟨hfound, hposition⟩ := hindex item hitem
    refine pairwise_visitsAt ?_ (h item.1 (List.mem_of_getElem? hfound))
    rw [child?, hposition]
    exact hfound
  · refine (pairwise_zipIdx_positions items).imp_of_mem ?_
    intro item other hitem hother hlt first hfirst second hsecond
    refine inOrder_of_smaller ?_ hfirst hsecond
    exact ⟨item.2, other.2, (hindex item hitem).2, (hindex other hother).2, hlt⟩

/-- A walk through an object goes in order if the walks from its members do.
Two members are in order because keys are sorted. -/
theorem pairwise_visits_object {members : Members Json} (hsorted : Members.Sorted members)
    (h : ∀ member ∈ members, member.2.visits.Pairwise (Visit.InOrder member.2)) :
    (object members).visits.Pairwise (Visit.InOrder (.object members)) := by
  rw [visits, memberVisits_eq_flatMap, List.pairwise_flatMap]
  constructor
  · intro member hmember
    unfold visitsOfMember
    split
    · exact List.pairwise_singleton _ _
    · next segment hsegment =>
      refine pairwise_visitsAt ?_ (h member hmember)
      rw [child?, Segment.text_of_ofString? hsegment, Members.lookup_eq_some_iff_mem hsorted]
      exact hmember
  · refine List.Pairwise.imp ?_ hsorted
    rintro member other hlt first hfirst second hsecond p value q wanted rfl rfl
    obtain ⟨s, hs, hp⟩ := reached_mem_visitsOfMember_iff.1 hfirst
    obtain ⟨t, ht, hq⟩ := reached_mem_visitsOfMember_iff.1 hsecond
    refine inOrder_of_smaller ?_ hp hq p value q wanted rfl rfl
    show Text.bytes s.text < Text.bytes t.text
    rw [hs, ht]
    exact Text.bytes_lt_bytes hlt

/-- A walk goes in order. -/
theorem pairwise_visits (hordered : node.Ordered) (hindexable : node.Indexable) :
    node.visits.Pairwise (Visit.InOrder node) := by
  induction hordered with
  | @array items hitems ih =>
    exact pairwise_visits_array hindexable fun item hitem =>
      ih item hitem (hindexable.items item hitem)
  | @object members hsorted hvalues ih =>
    exact pairwise_visits_object hsorted fun member hmember =>
      ih member hmember (hindexable.values member hmember)
  | _ => exact List.Pairwise.nil

end Json

namespace Document

variable {document : Document}

/-- The paths of the values that pass a test are listed in order. -/
theorem pairwise_pathsWhere (hindexable : document.root.Indexable) (test : Json → Bool) :
    (document.pathsWhere test).value.Pairwise fun p q =>
      document.root.Precedes p.segments q.segments := by
  show (document.root.visits.filterMap (Visit.path? test)).Pairwise _
  rw [List.pairwise_filterMap]
  refine (Json.pairwise_visits document.ordered hindexable).imp ?_
  intro first second hinOrder p hp q hq
  obtain ⟨value, rfl, -⟩ := Visit.path?_eq_some_iff.1 hp
  obtain ⟨wanted, rfl, -⟩ := Visit.path?_eq_some_iff.1 hq
  exact hinOrder p value q wanted rfl rfl

/-- No path is listed twice. -/
theorem nodup_pathsWhere (hindexable : document.root.Indexable) (test : Json → Bool) :
    (document.pathsWhere test).value.Nodup := by
  refine (pairwise_pathsWhere hindexable test).imp fun hprecedes heq => ?_
  rw [heq] at hprecedes
  exact hprecedes.not_prefix List.prefix_rfl

/-- The paths to the values above a listed one are listed before it. -/
theorem mem_before_of_prefix {test : Json → Bool} {path outer : Path} {before after : List Path}
    (hindexable : document.root.Indexable)
    (hlisted : (document.pathsWhere test).value = before ++ path :: after)
    (houter : outer ∈ (document.pathsWhere test).value)
    (hbegins : outer.segments <+: path.segments) (hne : outer ≠ path) : outer ∈ before := by
  have hpairwise := pairwise_pathsWhere hindexable test
  rw [hlisted] at hpairwise houter
  rcases List.mem_append.1 houter with hbefore | hrest
  · exact hbefore
  · have hafter : outer ∈ after := List.mem_of_ne_of_mem hne hrest
    have hprecedes := (List.pairwise_cons.1 (List.pairwise_append.1 hpairwise).2.1).1 outer hafter
    exact absurd hbegins hprecedes.not_prefix

/-- A read finds a value at the path. -/
def Finds (document : Document) (path : Path) : Prop :=
  ∃ value, (document.get path).value = some value

theorem Finds.follow {path : Path} (h : document.Finds path) :
    ∃ value, document.root.follow path.segments = .ok value := by
  obtain ⟨value, hvalue⟩ := h
  exact ⟨value.root, value_get_eq_some_iff.1 hvalue⟩

/-- The paths of a document are listed in strictly increasing order, so that
none is listed twice.  All of them lead to values, and on the paths that do
this order is a total one. -/
theorem paths_strictly_increasing (document : Document) (hindexable : document.root.Indexable) :
    (document.paths.value.Pairwise fun p q => document.root.Precedes p.segments q.segments) ∧
      document.paths.value.Nodup ∧
      (∀ p ∈ document.paths.value, document.Finds p) ∧
      (∀ p : Path, ¬ document.root.Precedes p.segments p.segments) ∧
      (∀ p q r : Path, document.Finds p → document.Finds q → document.Finds r →
        document.root.Precedes p.segments q.segments →
        document.root.Precedes q.segments r.segments →
        document.root.Precedes p.segments r.segments) ∧
      ∀ p q : Path, document.Finds p → document.Finds q →
        document.root.Precedes p.segments q.segments ∨ p = q ∨
          document.root.Precedes q.segments p.segments := by
  refine ⟨pairwise_pathsWhere hindexable _, nodup_pathsWhere hindexable _, ?_, ?_, ?_, ?_⟩
  · intro p hlisted
    obtain ⟨root, hroot, -⟩ := (mem_pathsWhere_iff hindexable).1 hlisted
    exact ⟨⟨root, document.ordered.follow hroot⟩, value_get_eq_some_iff.2 hroot⟩
  · intro p hprecedes
    exact hprecedes.not_prefix List.prefix_rfl
  · intro p q r hp _ _ hbefore hafter
    obtain ⟨value, hvalue⟩ := hp.follow
    exact hbefore.trans hvalue hafter
  · intro p q hp hq
    obtain ⟨value, hvalue⟩ := hp.follow
    obtain ⟨other, hother⟩ := hq.follow
    rcases Json.precedes_total hvalue hother with hbefore | heq | hafter
    · exact Or.inl hbefore
    · exact Or.inr (Or.inl (Path.ext_segments heq))
    · exact Or.inr (Or.inr hafter)

/-- An array with a two-digit index, and keys that are numerals. -/
def numbered : Document :=
  .object [("10", .array (List.replicate 11 .null)), ("9", .object [])]

theorem indexable_numbered : numbered.root.Indexable := by
  show Json.Indexable (.object [("10", .array (List.replicate 11 .null)), ("9", .object [])])
  refine .object (List.forall_mem_cons.2 ⟨?_, List.forall_mem_singleton.2 ?_⟩)
  · refine .array (by decide) fun item hitem => ?_
    rw [List.eq_of_mem_replicate hitem]
    exact .null
  · exact .object (by simp)

theorem paths_strictly_increasing_numbered :
    numbered.root.Indexable ∧
      (numbered.paths.value.Pairwise fun p q => numbered.root.Precedes p.segments q.segments) ∧
      numbered.paths.value.map Path.text =
        ["10", "10.0", "10.1", "10.2", "10.3", "10.4", "10.5", "10.6", "10.7", "10.8", "10.9",
          "10.10", "9"] :=
  ⟨indexable_numbered, (paths_strictly_increasing numbered indexable_numbered).1, rfl⟩

end Document

end Dotted
