import CommonSubgraph.OrderedSet

/-!
# Ordered sets as lists

Every operation on a set that represents a list (`OrderedSet.Represents`) gives a set that
represents the list one expects: an absent value is appended, a member is deleted where it stands,
clearing leaves the empty list and filling the ascending one. Iteration reads the list back
(`Represents.values_eq`), and two sets over one domain that represent the same list are equal
(`Represents.ext`), so nothing of the history of a set is left in its links.
-/

namespace CommonSubgraph

namespace OrderedSet

variable {s t : OrderedSet} {l a b : List Nat} {u v : Nat}

/-! ## The element after another -/

/-- After the head of a list comes the head of the rest. -/
theorem following_cons : following u (v :: l) = if u = v then l.head? else following u l := rfl

/-- Nothing comes after an element that is not in the list. -/
theorem following_eq_none (h : v ∉ l) : following v l = none := by
  induction l with
  | nil => rfl
  | cons x rest ih =>
    obtain ⟨hx, hr⟩ := List.ne_and_not_mem_of_not_mem_cons h
    rw [following_cons, if_neg hx, ih hr]

/-- After an element comes the head of what follows its first occurrence. -/
theorem following_append_cons (h : v ∉ a) : following v (a ++ v :: b) = b.head? := by
  induction a with
  | nil => exact if_pos rfl
  | cons x rest ih =>
    obtain ⟨hx, hr⟩ := List.ne_and_not_mem_of_not_mem_cons h
    rw [List.cons_append, following_cons, if_neg hx, ih hr]

/-- An element other than the head is the last of a list exactly if it is the last of the tail. -/
theorem getLast?_cons_eq_some_iff (h : u ≠ v) :
    (v :: l).getLast? = some u ↔ l.getLast? = some u := by
  cases l with
  | nil => simp [h.symm]
  | cons x rest => rw [List.getLast?_cons_cons]

/-- The last element is one of the list. -/
theorem getLast?_ne_some (h : u ∉ l) : l.getLast? ≠ some u :=
  fun hl => h (List.mem_of_getLast? hl)

/-- Appending gives the former last element a successor. -/
theorem following_concat (h : v ∉ l) (hl : l.Nodup) :
    following u (l ++ [v]) = if l.getLast? = some u then some v else following u l := by
  induction l with
  | nil => simp [following]
  | cons x rest ih =>
    have hr := (List.ne_and_not_mem_of_not_mem_cons h).2
    obtain ⟨hx, hn⟩ := List.nodup_cons.mp hl
    rw [List.cons_append, following_cons, following_cons]
    by_cases hu : u = x
    · subst hu
      cases rest with
      | nil => simp
      | cons y rest =>
        rw [List.getLast?_cons_cons, if_neg (getLast?_ne_some hx), if_pos rfl, if_pos rfl]
        rfl
    · rw [if_neg hu, if_neg hu, ih hr hn]
      simp only [getLast?_cons_eq_some_iff hu]

/-- Deleting `v` gives the element before it the element after it. -/
theorem following_delete (h : (a ++ v :: b).Nodup) (hu : u ≠ v) :
    following u (a ++ b) =
      if a.getLast? = some u then b.head? else following u (a ++ v :: b) := by
  induction a with
  | nil => simp [following_cons, hu]
  | cons x rest ih =>
    obtain ⟨hx, hn⟩ := List.nodup_cons.mp h
    rw [List.cons_append, List.cons_append, following_cons, following_cons]
    by_cases hux : u = x
    · subst hux
      cases rest with
      | nil => simp
      | cons y rest =>
        have hy : u ∉ y :: rest := fun hm => hx (List.mem_append_left _ hm)
        rw [List.getLast?_cons_cons, if_neg (getLast?_ne_some hy), if_pos rfl, if_pos rfl]
        rfl
    · rw [if_neg hux, if_neg hux, ih hn]
      simp only [getLast?_cons_eq_some_iff hux]

/-- A list has no repeats if none is left when an element is taken out and that element is nowhere
else. -/
theorem nodup_middle_iff : (a ++ v :: b).Nodup ↔ v ∉ a ++ b ∧ (a ++ b).Nodup :=
  List.perm_middle.nodup_iff.trans List.nodup_cons

/-! ## Linking -/

/-- Writing at a place changes nothing but the entry there. -/
theorem getElem_write {α : Type} {n : Nat} (table : Vector α n) (k : Option (Fin n)) (x : α)
    (h : u < n) :
    (write table k x)[u] = if k.map Fin.val = some u then x else table[u] := by
  cases k <;> simp [write, Vector.getElem_set]

/-- A place in the table has a number below the size of the table. -/
theorem lt_of_map_val {n : Nat} {k : Option (Fin n)} (h : k.map Fin.val = some u) : u < n := by
  cases k with
  | none => cases h
  | some k => cases h; exact k.isLt

section Link

variable (s : OrderedSet) (v : Fin s.domain)

@[simp] theorem domain_link : (s.link v).domain = s.domain := rfl

@[simp] theorem size_link : (s.link v).size = s.size + 1 := rfl

/-- Linking adds one member. -/
theorem contains_link : (s.link v).contains u = (u = v.val || s.contains u) := by
  obtain ⟨domain, present, prev, next, head, tail, size⟩ := s
  obtain ⟨v, hv⟩ := v
  change v < domain at hv
  by_cases hu : u = v
  · subst hu; simp [link, contains, hv]
  · simp [link, contains, hu, Ne.symm hu]

/-- A member linked to the end is the first only if there was none. -/
theorem first?_link : (s.link v).first? = if s.last? = none then some v.val else s.first? := by
  obtain ⟨domain, present, prev, next, head, tail, size⟩ := s
  cases tail <;> simp [link, first?, last?]

@[simp] theorem last?_link : (s.link v).last? = some v.val := rfl

/-- The former last member gets the new one as its next, which has none itself. -/
theorem next?_link : (s.link v).next? u =
    if s.last? = some u then some v.val else if u = v.val then none else s.next? u := by
  obtain ⟨domain, present, prev, next, head, tail, size⟩ := s
  obtain ⟨v, hv⟩ := v
  change v < domain at hv
  by_cases ht : tail.map Fin.val = some u
  · simp [link, last?, next?, getElem_write, ht, lt_of_map_val ht, -Option.map_eq_some_iff]
  · by_cases hu : u = v
    · subst hu; simp [link, last?, next?, getElem_write, ht, hv, -Option.map_eq_some_iff]
    · simp [link, last?, next?, getElem_write, ht, hu, Ne.symm hu,
        -Option.map_eq_some_iff]

/-- The new member has the former last one before it. -/
theorem prev?_link : (s.link v).prev? u = if u = v.val then s.last? else s.prev? u := by
  obtain ⟨domain, present, prev, next, head, tail, size⟩ := s
  obtain ⟨v, hv⟩ := v
  change v < domain at hv
  by_cases hu : u = v
  · subst hu; simp [link, last?, prev?, hv]
  · simp [link, prev?, hu, Ne.symm hu]

end Link

section Unlink

variable (s : OrderedSet) (v : Fin s.domain)

@[simp] theorem domain_unlink : (s.unlink v).domain = s.domain := rfl

@[simp] theorem size_unlink : (s.unlink v).size = s.size - 1 := rfl

/-- Unlinking takes one member away. -/
theorem contains_unlink : (s.unlink v).contains u = (u != v.val && s.contains u) := by
  obtain ⟨domain, present, prev, next, head, tail, size⟩ := s
  obtain ⟨v, hv⟩ := v
  by_cases hu : u = v
  · subst hu; simp [unlink, contains]
  · simp [unlink, contains, hu, Ne.symm hu]

/-- If the first member is unlinked, the one after it becomes the first. -/
theorem first?_unlink :
    (s.unlink v).first? = if s.prev? v = none then s.next? v else s.first? := by
  obtain ⟨domain, present, prev, next, head, tail, size⟩ := s
  obtain ⟨v, hv⟩ := v
  change v < domain at hv
  cases h : prev[v] <;> simp [unlink, first?, prev?, next?, hv, h]

/-- If the last member is unlinked, the one before it becomes the last. -/
theorem last?_unlink :
    (s.unlink v).last? = if s.next? v = none then s.prev? v else s.last? := by
  obtain ⟨domain, present, prev, next, head, tail, size⟩ := s
  obtain ⟨v, hv⟩ := v
  change v < domain at hv
  cases h : next[v] <;> simp [unlink, last?, prev?, next?, hv, h]

/-- The member before the one that was unlinked gets the one after it as its next. -/
theorem next?_unlink : (s.unlink v).next? u =
    if u = v.val then none else if s.prev? v = some u then s.next? v else s.next? u := by
  obtain ⟨domain, present, prev, next, head, tail, size⟩ := s
  obtain ⟨v, hv⟩ := v
  change v < domain at hv
  by_cases hu : u = v
  · subst hu; simp [unlink, next?]
  · by_cases hb : prev[v].map Fin.val = some u
    · simp [unlink, prev?, next?, getElem_write, hu, Ne.symm hu, hv, hb,
        lt_of_map_val hb, -Option.map_eq_some_iff]
    · simp [unlink, prev?, next?, getElem_write, hu, Ne.symm hu, hv, hb,
        -Option.map_eq_some_iff]

/-- The member after the one that was unlinked gets the one before it as its previous. -/
theorem prev?_unlink : (s.unlink v).prev? u =
    if u = v.val then none else if s.next? v = some u then s.prev? v else s.prev? u := by
  obtain ⟨domain, present, prev, next, head, tail, size⟩ := s
  obtain ⟨v, hv⟩ := v
  change v < domain at hv
  by_cases hu : u = v
  · subst hu; simp [unlink, prev?]
  · by_cases ha : next[v].map Fin.val = some u
    · simp [unlink, prev?, next?, getElem_write, hu, Ne.symm hu, hv, ha,
        lt_of_map_val ha, -Option.map_eq_some_iff]
    · simp [unlink, prev?, next?, getElem_write, hu, Ne.symm hu, hv, ha,
        -Option.map_eq_some_iff]

end Unlink

/-! ## What the operations do to the list -/

/-- The empty set represents the empty list. -/
theorem represents_empty (domain : Nat) : (empty domain).Represents [] where
  nodup := List.nodup_nil
  lt_domain v h := by cases h
  contains_iff v := by simp [contains, empty]
  first?_eq := rfl
  last?_eq := rfl
  size_eq := rfl
  next?_eq v := by simp [next?, empty, following]
  prev?_eq v := by simp [prev?, empty, following]

/-- Linking a new member puts it at the end of the list. -/
theorem Represents.link (h : s.Represents l) (v : Fin s.domain) (hv : v.val ∉ l) :
    (s.link v).Represents (l ++ [v.val]) where
  nodup := nodup_middle_iff.mpr (by simpa using ⟨hv, h.nodup⟩)
  lt_domain u hu := by
    rcases List.mem_append.mp hu with hu | hu
    · exact h.lt_domain u hu
    · rw [List.mem_singleton.mp hu]; exact v.isLt
  contains_iff u := by simp [contains_link, h.contains_iff, or_comm]
  first?_eq := by rw [first?_link, h.last?_eq, h.first?_eq]; cases l <;> simp
  last?_eq := by simp
  size_eq := by simp [h.size_eq]
  next?_eq u := by
    rw [next?_link, h.last?_eq, h.next?_eq, following_concat hv h.nodup]
    by_cases hu : u = v.val
    · rw [hu, if_pos rfl, following_eq_none hv]
    · rw [if_neg hu]
  prev?_eq u := by
    rw [prev?_link, h.last?_eq, h.prev?_eq, List.reverse_concat, following_cons, List.head?_reverse]

/-- What comes before a member is the last of the part of the list before it. -/
theorem Represents.prev?_split (h : s.Represents (a ++ v :: b)) : s.prev? v = a.getLast? := by
  have hv := (nodup_middle_iff.mp h.nodup).1
  have hb : v ∉ b.reverse := fun hm => hv (List.mem_append_right a (List.mem_reverse.mp hm))
  rw [h.prev?_eq, List.reverse_append, List.reverse_cons, List.append_assoc, List.singleton_append,
    following_append_cons hb, List.head?_reverse]

/-- What comes after a member is the head of the part of the list after it. -/
theorem Represents.next?_split (h : s.Represents (a ++ v :: b)) : s.next? v = b.head? := by
  have hv := (nodup_middle_iff.mp h.nodup).1
  rw [h.next?_eq, following_append_cons fun hm => hv (List.mem_append_left b hm)]

/-- Unlinking a member takes it out of the list and leaves the rest as it is. -/
theorem Represents.unlink (v : Fin s.domain) (h : s.Represents (a ++ v.val :: b)) :
    (s.unlink v).Represents (a ++ b) := by
  -- a member stands in the list once, so it is not among the others
  obtain ⟨hv, hn⟩ := nodup_middle_iff.mp h.nodup
  have hp := h.prev?_split
  have hx := h.next?_split
  have hm (u : Nat) : u ∈ a ++ v.val :: b ↔ u = v.val ∨ u ∈ a ++ b :=
    List.perm_middle.mem_iff.trans List.mem_cons
  constructor
  · exact hn
  · exact fun u hu => h.lt_domain u ((hm u).mpr (.inr hu))
  · intro u
    rw [contains_unlink, Bool.and_eq_true, h.contains_iff, hm, bne_iff_ne]
    constructor
    · rintro ⟨hne, he | hu⟩
      · exact absurd he hne
      · exact hu
    · intro hu
      exact ⟨fun he => hv (he ▸ hu), .inr hu⟩
  · rw [first?_unlink, hp, hx, h.first?_eq]
    cases a <;> simp
  · rw [last?_unlink, hp, hx, h.last?_eq]
    cases b <;> simp
  · simp [h.size_eq]
  · intro u
    rw [next?_unlink, hp, hx, h.next?_eq]
    by_cases hu : u = v.val
    · rw [if_pos hu, hu, following_eq_none hv]
    · rw [if_neg hu, following_delete h.nodup hu]
  · intro u
    rw [prev?_unlink, hp, hx, h.prev?_eq]
    by_cases hu : u = v.val
    · rw [if_pos hu, hu, following_eq_none fun hm => hv (List.mem_reverse.mp hm)]
    · -- the element before another is the one after it in the list turned around
      have hr : (a ++ v.val :: b).reverse = b.reverse ++ v.val :: a.reverse := by simp
      have he : (a ++ b).reverse = b.reverse ++ a.reverse := List.reverse_append
      have hd : (b.reverse ++ v.val :: a.reverse).Nodup :=
        hr ▸ (List.reverse_perm _).nodup_iff.mpr h.nodup
      rw [if_neg hu, hr, he, following_delete hd hu, List.getLast?_reverse, List.head?_reverse]

@[simp] theorem domain_put (s : OrderedSet) (v : Fin s.domain) : (s.put v).domain = s.domain := by
  unfold put; split <;> rfl

/-- Putting a member that is there already changes nothing; another one goes to the end. -/
theorem Represents.put (h : s.Represents l) (v : Fin s.domain) :
    (s.put v).Represents (if v.val ∈ l then l else l ++ [v.val]) := by
  have hc : s.present[v] = s.contains v := by simp [contains]
  unfold OrderedSet.put
  rw [hc]
  by_cases hv : v.val ∈ l
  · simpa [hv, (h.contains_iff v).mpr hv] using h
  · simpa [hv, h.contains_iff] using h.link v hv

/-- A value outside the domain is refused. -/
theorem insert_eq_error (s : OrderedSet) (hv : s.domain ≤ v) :
    s.insert v = .error .valueOutsideDomain :=
  dif_neg (Nat.not_lt.mpr hv)

/-- An absent value of the domain is appended, and a member stays where it is. -/
theorem Represents.insert (h : s.Represents l) (hv : v < s.domain) :
    ∃ t, s.insert v = .ok (t, decide (v ∉ l)) ∧ t.domain = s.domain ∧
      t.Represents (if v ∈ l then l else l ++ [v]) := by
  have hc : s.present[v] = decide (v ∈ l) := by
    rw [Bool.eq_iff_iff, decide_eq_true_iff, ← h.contains_iff]
    simp [contains, hv]
  refine ⟨s.put ⟨v, hv⟩, ?_, ?_, h.put ⟨v, hv⟩⟩
  · simp [OrderedSet.insert, hv, hc]
  · exact domain_put s ⟨v, hv⟩

/-- A member is deleted where it stands; anything else changes nothing. -/
theorem Represents.erase (h : s.Represents l) (v : Nat) :
    (s.erase v).2 = decide (v ∈ l) ∧ (s.erase v).1.domain = s.domain ∧
      (s.erase v).1.Represents (l.erase v) := by
  by_cases hv : v ∈ l
  · have hd := h.lt_domain v hv
    have hc : s.present[v] = true := by simpa [contains, hd] using (h.contains_iff v).mpr hv
    obtain ⟨a, b, _, rfl, he⟩ := List.exists_erase_eq hv
    simp only [OrderedSet.erase, dif_pos hd, hc, if_true, hv, decide_true, he]
    exact ⟨trivial, rfl, h.unlink ⟨v, hd⟩⟩
  · have hc : s.contains v = false := by rw [← Bool.not_eq_true, h.contains_iff]; exact hv
    have hu : s.erase v = (s, false) := by
      by_cases hd : v < s.domain
      · have hf : s.present[v] = false := by simpa [contains, hd] using hc
        simp [OrderedSet.erase, hd, hf]
      · simp [OrderedSet.erase, hd]
    simpa [hu, hv, List.erase_of_not_mem hv] using h

/-- Erasing the first member drops the head of the list, if there is one. -/
theorem Represents.eraseHead (h : s.Represents l) :
    s.eraseHead.domain = s.domain ∧ s.eraseHead.Represents l.tail := by
  have hf := h.first?_eq
  unfold OrderedSet.eraseHead
  cases l with
  | nil =>
    have hn : s.head = none := by simpa [first?] using hf
    rw [hn]
    exact ⟨rfl, h⟩
  | cons v rest =>
    obtain ⟨k, hk, rfl⟩ := Option.map_eq_some_iff.mp hf
    rw [hk]
    simpa using (h.erase k.val).2

/-- Clearing leaves the empty list. -/
theorem Represents.clear (h : s.Represents l) :
    s.clear.domain = s.domain ∧ s.clear.Represents [] := by
  have step (n : Nat) : (Nat.repeat OrderedSet.eraseHead n s).domain = s.domain ∧
      (Nat.repeat OrderedSet.eraseHead n s).Represents (l.drop n) := by
    induction n with
    | zero => exact ⟨rfl, h⟩
    | succ n ih =>
      have := ih.2.eraseHead
      exact ⟨this.1.trans ih.1, by simpa [Nat.repeat] using this.2⟩
  simpa [OrderedSet.clear, h.size_eq] using step s.size

/-- Inserting everything leaves the whole domain in ascending order, whatever was there before. -/
theorem Represents.insertAll (h : s.Represents l) :
    s.insertAll.domain = s.domain ∧ s.insertAll.Represents (List.range s.domain) := by
  have step (n : Nat) (hn : n ≤ s.domain) (t : OrderedSet) (ht : t = (List.range n).foldl
      (fun t v => if h : v < t.domain then t.put ⟨v, h⟩ else t) s.clear) :
      t.domain = s.domain ∧ t.Represents (List.range n) := by
    induction n generalizing t with
    | zero => rw [ht]; exact h.clear
    | succ n ih =>
      obtain ⟨hd, hr⟩ := ih (Nat.le_of_succ_le hn) _ rfl
      rw [List.range_succ, List.foldl_append, List.foldl_cons, List.foldl_nil,
        dif_pos (by omega)] at ht
      rw [ht, List.range_succ]
      exact ⟨(domain_put ..).trans hd, by simpa using hr.put ⟨n, by omega⟩⟩
  exact step s.domain (Nat.le_refl _) _ rfl

/-! ## Reading the list back -/

/-- Walking from a member on with enough fuel reads the rest of the list. -/
theorem Represents.walk_eq (h : s.Represents l) (hl : l = a ++ b) {k : Option (Fin s.domain)}
    (hk : k.map Fin.val = b.head?) {n : Nat} (hn : b.length ≤ n) : s.walk n k = b := by
  induction b generalizing a k n with
  | nil =>
    obtain rfl : k = none := by simpa using hk
    cases n <;> rfl
  | cons v rest ih =>
    obtain ⟨k, rfl, rfl⟩ := Option.map_eq_some_iff.mp hk
    obtain ⟨n, rfl⟩ : ∃ m, n = m + 1 := Nat.exists_eq_add_one.mpr (Nat.lt_of_lt_of_le (by simp) hn)
    have hx : s.next? k = rest.head? := Represents.next?_split (hl ▸ h)
    have := ih (a := a ++ [k.val]) (by simp [hl]) (by simpa [next?] using hx)
      (n := n) (by simpa using hn)
    simp [walk, this]

/-- Iteration gives the list that the set represents. -/
theorem Represents.values_eq (h : s.Represents l) : s.values = l :=
  h.walk_eq (List.nil_append l).symm h.first?_eq <| by
    simpa using h.nodup.length_le_of_subset fun v hv => List.mem_range.mpr (h.lt_domain v hv)

/-- A set represents one list only. -/
theorem Represents.unique (ha : s.Represents a) (hb : s.Represents b) : a = b :=
  ha.values_eq.symm.trans hb.values_eq

/-- A set is determined by its domain and the list it represents. -/
theorem Represents.ext (hs : s.Represents l) (ht : t.Represents l) (hd : s.domain = t.domain) :
    s = t := by
  have map_val_inj {n : Nat} {j k : Option (Fin n)} (h : j.map Fin.val = k.map Fin.val) : j = k :=
    Option.map_injective (fun _ _ => Fin.eq_of_val_eq) h
  obtain ⟨domain, present, prev, next, head, tail, size⟩ := s
  obtain ⟨domain', present', prev', next', head', tail', size'⟩ := t
  obtain rfl : domain = domain' := hd
  obtain rfl : present = present' := by
    ext k hk
    have := Bool.eq_iff_iff.mpr ((hs.contains_iff k).trans (ht.contains_iff k).symm)
    simpa [contains, hk] using this
  obtain rfl : prev = prev' := by
    ext k hk : 1
    have := (hs.prev?_eq k).trans (ht.prev?_eq k).symm
    exact map_val_inj (by simpa [prev?, hk] using this)
  obtain rfl : next = next' := by
    ext k hk : 1
    have := (hs.next?_eq k).trans (ht.next?_eq k).symm
    exact map_val_inj (by simpa [next?, hk] using this)
  obtain rfl : head = head' := map_val_inj (hs.first?_eq.trans ht.first?_eq.symm)
  obtain rfl : tail = tail' := map_val_inj (hs.last?_eq.trans ht.last?_eq.symm)
  obtain rfl : size = size' := hs.size_eq.trans ht.size_eq.symm
  rfl

end OrderedSet

end CommonSubgraph
