/-!
# Members of an object

The members of an object are pairs of a key and a value, in the order of their keys: code point by
code point, which is also the order of the UTF-8 bytes.

* `Members.Sorted` says that the keys strictly increase, so that no key occurs twice.
* `Members.update` changes the value of a key or makes a member for it. It keeps the order
  (`Sorted.update`) and leaves every other key as it was (`lookup_update_of_ne`).
* `Members.insert` gives a key its value (`lookup_insert_self`).
* `Members.ofList` sorts pairs; of several pairs with one key the last one counts
  (`lookup_ofList`).
-/

namespace Dotted

/-- Keys with their values. -/
abbrev Members (α : Type) := List (String × α)

namespace Members

variable {α : Type}

/-- The keys strictly increase. -/
def Sorted (members : Members α) : Prop := members.Pairwise fun a b => a.1 < b.1

/-- The members with another value under `key`, which may depend on the value that was there; a new
member comes before the first greater key. -/
def update (key : String) (change : Option α → α) : Members α → Members α
  | [] => [(key, change none)]
  | (other, old) :: rest =>
    if other < key then (other, old) :: update key change rest
    else if other = key then (key, change (some old)) :: rest
    else (key, change none) :: (other, old) :: rest

/-- The members with `value` under `key`, whether or not the key was there. -/
def insert (key : String) (value : α) (members : Members α) : Members α :=
  members.update key fun _ => value

/-- The members with `value` under `key`, unless the key was there. -/
def insertIfNew (key : String) (value : α) (members : Members α) : Members α :=
  members.update key fun old => old.getD value

/-- The pairs of a list as members; a later pair replaces an earlier one of the same key. -/
def ofList (pairs : List (String × α)) : Members α :=
  pairs.foldr (fun pair members => members.insertIfNew pair.1 pair.2) []

/-! ## Looking up keys -/

theorem lookup_insert_self (key : String) (value : α) (members : Members α) :
    (insert key value members).lookup key = some value := by
  unfold insert
  induction members with
  | nil => simp [update]
  | cons head rest ih =>
    obtain ⟨other, old⟩ := head
    unfold update
    split
    · next hlt =>
      have hne : key ≠ other := fun heq => String.lt_irrefl key (heq ▸ hlt)
      simp [List.lookup_cons, beq_false_of_ne hne, ih]
    · split <;> simp

theorem lookup_update_of_ne {key other : String} (h : other ≠ key) (change : Option α → α)
    (members : Members α) : (update key change members).lookup other = members.lookup other := by
  have hkey : (other == key) = false := beq_false_of_ne h
  induction members with
  | nil => simp [update, List.lookup_cons, hkey]
  | cons head rest ih =>
    obtain ⟨first, old⟩ := head
    unfold update
    split
    · simp [List.lookup_cons, ih]
    · split
      · next heq => subst heq; simp [List.lookup_cons, hkey]
      · simp [List.lookup_cons, hkey]

theorem lookup_insert_of_ne {key other : String} (h : other ≠ key) (value : α)
    (members : Members α) : (insert key value members).lookup other = members.lookup other :=
  lookup_update_of_ne h _ members

/-- A key that is smaller than all keys is not there. -/
theorem lookup_eq_none {key : String} {members : Members α}
    (h : ∀ member ∈ members, key < member.1) : members.lookup key = none := by
  rw [List.lookup_eq_none_iff]
  intro member hmember
  have hlt := h member hmember
  have hne : key ≠ member.1 := fun heq => String.lt_irrefl key (by rw [← heq] at hlt; exact hlt)
  simp [hne]

/-- Keys are ordered totally. -/
theorem lt_of_not_lt_of_ne {a b : String} (hlt : ¬ a < b) (hne : a ≠ b) : b < a := by
  refine Decidable.byContradiction fun h => hne ?_
  exact String.le_antisymm (String.not_lt.1 h) (String.not_lt.1 hlt)

theorem lookup_update_self {members : Members α} (h : Sorted members) (key : String)
    (change : Option α → α) :
    (update key change members).lookup key = some (change (members.lookup key)) := by
  induction members with
  | nil => simp [update]
  | cons head rest ih =>
    obtain ⟨other, old⟩ := head
    have hparts := List.pairwise_cons.1 h
    unfold update
    split
    · next hlt =>
      have hne : key ≠ other := fun heq => String.lt_irrefl key (heq ▸ hlt)
      simp [List.lookup_cons, beq_false_of_ne hne, ih hparts.2]
    · next hnot =>
      split
      · next heq => subst heq; simp
      · next hne =>
        have hkey := lt_of_not_lt_of_ne hnot hne
        have hnone : List.lookup key ((other, old) :: rest) = none := by
          refine lookup_eq_none fun member hmember => ?_
          rcases List.mem_cons.1 hmember with rfl | hrest
          · exact hkey
          · exact String.lt_trans hkey (hparts.1 _ hrest)
        simp [hnone]

/-! ## Members of the result -/

theorem mem_update {key : String} {change : Option α → α} {members : Members α}
    {member : String × α} (h : member ∈ update key change members) :
    member ∈ members ∨ member = (key, change none) ∨
      ∃ old, (key, old) ∈ members ∧ member = (key, change (some old)) := by
  induction members with
  | nil => simpa [update] using h
  | cons head rest ih =>
    obtain ⟨other, old⟩ := head
    unfold update at h
    split at h
    · rcases List.mem_cons.1 h with rfl | hrest
      · exact .inl (List.mem_cons_self ..)
      · rcases ih hrest with hmem | hnew | ⟨found, hfound, heq⟩
        · exact .inl (List.mem_cons_of_mem _ hmem)
        · exact .inr (.inl hnew)
        · exact .inr (.inr ⟨found, List.mem_cons_of_mem _ hfound, heq⟩)
    · split at h
      · next heq =>
        subst heq
        rcases List.mem_cons.1 h with rfl | hrest
        · exact .inr (.inr ⟨old, List.mem_cons_self .., rfl⟩)
        · exact .inl (List.mem_cons_of_mem _ hrest)
      · rcases List.mem_cons.1 h with rfl | hrest
        · exact .inr (.inl rfl)
        · exact .inl hrest

theorem mem_insert {key : String} {value : α} {members : Members α} {member : String × α}
    (h : member ∈ insert key value members) : member = (key, value) ∨ member ∈ members := by
  rcases mem_update h with hmem | hnew | ⟨_, _, hnew⟩
  · exact .inr hmem
  · exact .inl hnew
  · exact .inl hnew

theorem mem_insertIfNew {key : String} {value : α} {members : Members α} {member : String × α}
    (h : member ∈ insertIfNew key value members) : member = (key, value) ∨ member ∈ members := by
  rcases mem_update h with hmem | hnew | ⟨old, hold, rfl⟩
  · exact .inr hmem
  · exact .inl hnew
  · exact .inr hold

/-- Every member is one of the pairs. -/
theorem mem_ofList {pairs : List (String × α)} {member : String × α} (h : member ∈ ofList pairs) :
    member ∈ pairs := by
  induction pairs with
  | nil => exact h
  | cons pair rest ih =>
    rcases mem_insertIfNew h with rfl | hrest
    · exact List.mem_cons_self ..
    · exact List.mem_cons_of_mem _ (ih hrest)

/-! ## Order -/

theorem Sorted.update {members : Members α} (h : Sorted members) (key : String)
    (change : Option α → α) : Sorted (update key change members) := by
  induction members with
  | nil => simp [Members.update, Sorted]
  | cons head rest ih =>
    obtain ⟨other, old⟩ := head
    have hparts := List.pairwise_cons.1 h
    unfold Members.update
    split
    · next hlt =>
      refine List.pairwise_cons.2 ⟨?_, ih hparts.2⟩
      intro member hmember
      rcases mem_update hmember with hrest | rfl | ⟨_, _, rfl⟩
      · exact hparts.1 _ hrest
      · exact hlt
      · exact hlt
    · next hnot =>
      split
      · next heq => subst heq; exact List.pairwise_cons.2 ⟨hparts.1, hparts.2⟩
      · next hne =>
        have hkey := lt_of_not_lt_of_ne hnot hne
        refine List.pairwise_cons.2 ⟨?_, h⟩
        intro member hmember
        rcases List.mem_cons.1 hmember with rfl | hrest
        · exact hkey
        · exact String.lt_trans hkey (hparts.1 _ hrest)

theorem Sorted.insert {members : Members α} (h : Sorted members) (key : String) (value : α) :
    Sorted (insert key value members) := h.update key _

theorem sorted_ofList (pairs : List (String × α)) : Sorted (ofList pairs) := by
  induction pairs with
  | nil => exact List.Pairwise.nil
  | cons pair rest ih => exact ih.update pair.1 _

/-- The value of a key is that of the last pair with this key. -/
theorem lookup_ofList (pairs : List (String × α)) (key : String) :
    (ofList pairs).lookup key = pairs.reverse.lookup key := by
  induction pairs with
  | nil => rfl
  | cons pair rest ih =>
    obtain ⟨other, value⟩ := pair
    have hsorted : Sorted (ofList rest) := sorted_ofList rest
    change ((ofList rest).insertIfNew other value).lookup key = _
    rw [List.reverse_cons, List.lookup_append, ← ih]
    unfold insertIfNew
    by_cases h : key = other
    · subst h
      rw [lookup_update_self hsorted]
      cases (ofList rest).lookup key <;> simp
    · rw [lookup_update_of_ne h]
      simp [List.lookup_cons, beq_false_of_ne h]

end Members

end Dotted
