import Dotted.Command.FileTree
import Mathlib.Tactic.SplitIfs

/-!
# Files, written and read again

A name is resolved by entering one directory after the other, so everything
on the way to a place is a directory.  Writing a file changes what is at its
place, which is no directory, and nothing else.  The name therefore leads to
the same place afterwards, and the file is read as it was written.

* `enter_cases` says where a component leads, and `onTheWay_of_resolve` that
  there are directories on the way to a resolved place.
* `found_put_self` and `found_put_of_ne` say what a tree holds after a file
  has been put into it.
* `FileTree.Overwritten` says that a file has new contents and that nothing else
  has changed, and `overwritten_of_write` that a write does this.
-/

namespace Dotted.Command.FileTree

variable {tree after : FileTree} {name component : String} {place next other : Place}
  {contents : ByteArray}

/-! ## Places that names lead to -/

theorem found_at_root (h : place.isRootOrAbove = true) :
    tree.entry? place = some .directory := if_pos h

theorem found_below_root (h : ¬ place.isRootOrAbove = true) :
    tree.entry? place =
      match tree.entries.lookup place with
      | some entry => some entry
      | none =>
        if tree.entries.any fun entry => place.isPrefixOf entry.1 then some .directory
        else none := if_neg h

/-- A component is looked for in a directory, and leads to the directory itself,
to the one above, or to a name in it. -/
theorem enter_cases (h : tree.enter place component = .ok next) :
    tree.entry? place = some .directory ∧
      ((component = "" ∨ component = ".") ∧ next = place ∨
        component = upward ∧ place.isRootOrAbove = true ∧ next = place ++ [upward] ∨
        component = upward ∧ next = place.dropLast ∨
        ¬ (component = "" ∨ component = "." ∨ component = upward) ∧
          next = place ++ [component]) := by
  unfold enter at h
  split at h
  · cases h
  · cases h
  · next hdirectory =>
    refine ⟨hdirectory, ?_⟩
    split_ifs at h with hhere hup hroot hlong
    · exact Or.inl ⟨hhere, (Except.ok.inj h).symm⟩
    · exact Or.inr (Or.inl ⟨hup, hroot, (Except.ok.inj h).symm⟩)
    · exact Or.inr (Or.inr (Or.inl ⟨hup, (Except.ok.inj h).symm⟩))
    · have hname : ¬ (component = "" ∨ component = "." ∨ component = upward) := by
        rintro (hempty | hdot | hupward)
        · exact hhere (Or.inl hempty)
        · exact hhere (Or.inr hdot)
        · exact hup hupward
      exact Or.inr (Or.inr (Or.inr ⟨hname, (Except.ok.inj h).symm⟩))

/-- Everything above a place is a directory. -/
def OnTheWay (tree : FileTree) (place : Place) : Prop :=
  ∀ other : Place, other <+: place → other ≠ place → tree.entry? other = some .directory

theorem OnTheWay.concat (h : tree.OnTheWay place) (hplace : tree.entry? place = some .directory)
    (component : String) : tree.OnTheWay (place ++ [component]) := by
  intro other habove hne
  rcases List.prefix_concat_iff.1 habove with heq | habove
  · exact absurd heq hne
  · by_cases heq : other = place
    · rw [heq]
      exact hplace
    · exact h other habove heq

theorem OnTheWay.dropLast (h : tree.OnTheWay place) : tree.OnTheWay place.dropLast := by
  intro other habove hne
  refine h other (habove.trans (List.dropLast_prefix place)) ?_
  rintro rfl
  exact hne (habove.eq_of_length_le (List.dropLast_prefix other).length_le)

theorem OnTheWay.enter (h : tree.OnTheWay place) (henter : tree.enter place component = .ok next) :
    tree.OnTheWay next := by
  obtain ⟨hdirectory, ⟨-, rfl⟩ | ⟨-, -, rfl⟩ | ⟨-, rfl⟩ | ⟨-, rfl⟩⟩ := enter_cases henter
  · exact h
  · exact h.concat hdirectory upward
  · exact h.dropLast
  · exact h.concat hdirectory component

theorem onTheWay_start (tree : FileTree) (name : String) : tree.OnTheWay (start name) := by
  have hroot : tree.OnTheWay [] := fun other habove hne => absurd (List.prefix_nil.1 habove) hne
  unfold start
  split
  · exact hroot.concat (found_at_root rfl) upward
  · exact hroot

theorem OnTheWay.foldlM_enter {components : List String} (h : tree.OnTheWay place)
    (hfold : components.foldlM tree.enter place = .ok next) : tree.OnTheWay next := by
  induction components generalizing place with
  | nil => exact Except.ok.inj hfold ▸ h
  | cons component components ih =>
    rw [List.foldlM_cons] at hfold
    cases henter : tree.enter place component with
    | error reason =>
      rw [henter] at hfold
      cases hfold
    | ok inside =>
      rw [henter] at hfold
      exact ih (h.enter henter) hfold

theorem resolve_concat {components : List String} (h : tree.resolve name components = .ok place)
    (henter : tree.enter place component = .ok next) :
    tree.resolve name (components ++ [component]) = .ok next := by
  unfold resolve at h ⊢
  split_ifs at h ⊢ with hlong
  rw [List.foldlM_append, h]
  show List.foldlM tree.enter place [component] = _
  rw [List.foldlM_cons, henter]
  rfl

/-- There are only directories on the way to a resolved place. -/
theorem onTheWay_of_resolve {components : List String}
    (h : tree.resolve name components = .ok place) : tree.OnTheWay place := by
  unfold resolve at h
  split at h
  · cases h
  · exact (onTheWay_start tree name).foldlM_enter h

/-! ## Trees with more directories -/

theorem enter_of_directories
    (hkeeps : ∀ place, tree.entry? place = some .directory → after.entry? place = some .directory)
    (h : tree.enter place component = .ok next) : after.enter place component = .ok next := by
  have hdirectory := (enter_cases h).1
  rw [enter, hdirectory] at h
  rw [enter, hkeeps place hdirectory]
  exact h

/-- A name that leads somewhere still leads there if all directories are kept. -/
theorem resolve_of_directories {components : List String}
    (hkeeps : ∀ place, tree.entry? place = some .directory → after.entry? place = some .directory)
    (h : tree.resolve name components = .ok place) :
    after.resolve name components = .ok place := by
  unfold resolve at h ⊢
  split_ifs at h ⊢ with hlong
  generalize start name = here at h ⊢
  induction components generalizing here with
  | nil => exact h
  | cons component components ih =>
    rw [List.foldlM_cons] at h ⊢
    cases henter : tree.enter here component with
    | error reason =>
      rw [henter] at h
      cases h
    | ok inside =>
      rw [henter] at h
      rw [enter_of_directories hkeeps henter]
      exact ih inside h

/-! ## Putting a file into a tree -/

theorem lookup_filter_of_ne (entries : List (Place × Entry)) (h : other ≠ place) :
    (entries.filter fun entry => entry.1 ≠ place).lookup other = entries.lookup other := by
  induction entries with
  | nil => rfl
  | cons entry entries ih =>
    obtain ⟨first, entry⟩ := entry
    by_cases hfirst : first = place
    · have hne : (other == first) = false := beq_false_of_ne (hfirst ▸ h)
      rw [List.filter_cons_of_neg (by simpa using hfirst), ih, List.lookup_cons, hne]
    · rw [List.filter_cons_of_pos (by simpa using hfirst), List.lookup_cons, List.lookup_cons, ih]

theorem found_put_self (h : place.isRootOrAbove = false) :
    entry? (tree.put place contents) place = some (.file contents) := by
  have hnone : (tree.entries.filter fun entry => entry.1 ≠ place).lookup place = none := by
    rw [List.lookup_eq_none_iff]
    intro entry hentry
    have hne : entry.1 ≠ place := by simpa using (List.mem_filter.1 hentry).2
    simpa using hne.symm
  rw [found_below_root (by rw [h]; exact Bool.false_ne_true), put, List.lookup_append, hnone,
    List.lookup_cons, beq_self_eq_true]
  rfl

/-- At every other place there is what was there. -/
theorem found_put_of_ne (hway : tree.OnTheWay place) (h : other ≠ place) :
    entry? (tree.put place contents) other = tree.entry? other := by
  have hlookup : (tree.put place contents).entries.lookup other = tree.entries.lookup other := by
    have hlast : List.lookup other [(place, Entry.file contents)] = none := by
      rw [List.lookup_cons, beq_false_of_ne h]
      rfl
    rw [put, List.lookup_append, lookup_filter_of_ne _ h, hlast, Option.or_none]
  by_cases hroot : other.isRootOrAbove = true
  · rw [found_at_root hroot, found_at_root hroot]
  by_cases habove : other <+: place
  · -- A directory on the way to the file: the file lies below it now.
    have hdirectory := hway other habove h
    have hbelow : ((tree.put place contents).entries.any fun entry => other.isPrefixOf entry.1)
        = true := by
      rw [put, List.any_append]
      simp [List.isPrefixOf_iff_prefix.2 habove]
    rw [hdirectory]
    rw [found_below_root hroot] at hdirectory ⊢
    rw [hlookup, hbelow]
    cases hfound : tree.entries.lookup other with
    | none => rfl
    | some entry =>
      rw [hfound] at hdirectory
      exact hdirectory
  · -- The file lies elsewhere, before as well as now.
    have hbelow : ((tree.put place contents).entries.any fun entry => other.isPrefixOf entry.1)
        = tree.entries.any fun entry => other.isPrefixOf entry.1 := by
      have hplace : other.isPrefixOf place = false := by
        rw [Bool.eq_false_iff]
        exact fun hp => habove (List.isPrefixOf_iff_prefix.1 hp)
      rw [put, List.any_append, List.any_filter]
      simp only [List.any_cons, List.any_nil, hplace, Bool.or_false]
      congr 1
      funext entry
      by_cases hentry : entry.1 = place
      · rw [hentry, hplace, Bool.and_false]
      · simp [hentry]
    rw [found_below_root hroot, found_below_root hroot, hlookup, hbelow]

/-! ## Writing -/

/-- The file that a name leads to has the contents, and everything else is as it
was. -/
structure Overwritten (tree : FileTree) (name : String) (contents : ByteArray)
    (after : FileTree) : Prop where
  read_eq : after.read name = .ok contents
  exists_place : ∃ place, tree.resolve name (components name) = .ok place ∧
    after.entry? place = some (.file contents) ∧
    ∀ other, other ≠ place → after.entry? other = tree.entry? other

/-- A name that ends in a component of its own is split in front of it. -/
theorem components_of_splitName {parents : List String} {last : String}
    (h : splitName name = (parents, last)) (hlast : last ≠ "") :
    components name = parents ++ [last] := by
  unfold splitName at h
  dsimp only at h
  split at h
  · obtain ⟨-, rfl⟩ := Prod.mk.inj h
    exact absurd rfl hlast
  · next final rest hreverse =>
    obtain ⟨rfl, rfl⟩ := Prod.mk.inj h
    rw [← List.reverse_reverse (components name), hreverse, List.reverse_cons]
  · obtain ⟨-, rfl⟩ := Prod.mk.inj h
    exact absurd rfl hlast

/-- A write puts the file at the place that its name leads to, which is no
directory. -/
theorem write_cases (h : tree.write name contents = .ok after) :
    ∃ place, tree.resolve name (components name) = .ok place ∧
      tree.entry? place ≠ some .directory ∧ after = tree.put place contents := by
  unfold write at h
  obtain ⟨parents, last, hsplit⟩ : ∃ parents last, splitName name = (parents, last) :=
    ⟨_, _, rfl⟩
  rw [hsplit] at h
  dsimp only at h
  cases hparents : tree.resolve name parents with
  | error reason =>
    rw [hparents] at h
    cases h
  | ok directory =>
    rw [hparents] at h
    cases henter : tree.enter directory last with
    | error reason =>
      simp only [bind, Except.bind, henter] at h
      cases h
    | ok place =>
      simp only [bind, Except.bind, henter] at h
      split at h
      · cases h
      · next hname =>
        refine ⟨place, ?_, ?_⟩
        · rw [components_of_splitName hsplit fun hempty => hname (Or.inl hempty)]
          exact resolve_concat hparents henter
        · split at h
          · cases h
          · next hentry => exact ⟨hentry, (Except.ok.inj h).symm⟩

theorem read_of_resolve (hplace : tree.resolve name (components name) = .ok place)
    (hentry : tree.entry? place = some (.file contents)) : tree.read name = .ok contents := by
  simp only [read, hplace, bind, Except.bind, hentry]

theorem overwritten_of_write (h : tree.write name contents = .ok after) :
    tree.Overwritten name contents after := by
  obtain ⟨place, hplace, hentry, rfl⟩ := write_cases h
  have hway := onTheWay_of_resolve hplace
  have hnotRoot : place.isRootOrAbove = false := by
    rw [Bool.eq_false_iff]
    exact fun hroot => hentry (found_at_root hroot)
  have hself : entry? (tree.put place contents) place = some (.file contents) :=
    found_put_self hnotRoot
  have hothers : ∀ other, other ≠ place →
      entry? (tree.put place contents) other = tree.entry? other :=
    fun other hne => found_put_of_ne hway hne
  refine ⟨?_, place, hplace, hself, hothers⟩
  -- No directory lies at the place, so all of them are still there.
  have hresolve : (tree.put place contents).resolve name (components name) = .ok place := by
    refine resolve_of_directories (fun other hdirectory => ?_) hplace
    rw [hothers other fun heq => hentry (heq ▸ hdirectory)]
    exact hdirectory
  exact read_of_resolve hresolve hself

end Dotted.Command.FileTree
