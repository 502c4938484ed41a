import Mathlib.Data.List.Induction
import Mathlib.Data.List.Pairwise
import LiveMarkup.Proofs.Reactive.Handles

/-!
# The order in which listeners are called

The listeners under a name are called in the order of their keys. A new listener takes
the key that was freed last, so it comes before the listeners with greater keys, which
were registered before it.

So listeners are called in the order in which they were registered exactly as long as
no listener is given a key below that of an earlier one and both stay
(`calledInOrder_iff`). Both sides speak of the registrations in a list of calls whose
listener is still there, and those are what is called, each of them once.
-/

namespace LiveMarkup

namespace Slab

variable {α : Type} {s : Slab α} {k : Nat} {a : α}

theorem lt_capacity (h : s.get? k = some a) : k < s.capacity := by
  by_contra hk
  simp [get?, Array.getElem?_eq_none (Nat.le_of_not_lt hk)] at h

theorem mem_entries : (k, a) ∈ s.entries ↔ s.get? k = some a := by
  unfold entries
  simp only [List.mem_filterMap, List.mem_range, Option.map_eq_some_iff, Prod.mk.injEq]
  constructor
  · rintro ⟨l, -, b, hb, rfl, rfl⟩
    exact hb
  · intro h
    exact ⟨k, lt_capacity h, a, h, rfl, rfl⟩

/-- The entries stand in the order of their keys. -/
theorem pairwise_entries (s : Slab α) : s.entries.Pairwise fun x y => x.1 < y.1 := by
  refine List.Pairwise.filterMap _ ?_ List.pairwise_lt_range
  intro k l hkl x hx y hy
  simp only [Option.map_eq_some_iff] at hx hy
  obtain ⟨_, -, rfl⟩ := hx
  obtain ⟨_, -, rfl⟩ := hy
  exact hkl

theorem nodup_entries (s : Slab α) : s.entries.Nodup :=
  s.pairwise_entries.imp fun h heq => Nat.ne_of_lt h (congrArg Prod.fst heq)

/-- A new value is one more entry. -/
theorem perm_entries_insert (s : Slab α) (a : α) :
    (s.insert a).entries.Perm ((s.nextKey, a) :: s.entries) := by
  have hnew : (s.nextKey, a) ∉ s.entries := by simp [mem_entries]
  refine (List.perm_ext_iff_of_nodup (nodup_entries _)
    (List.nodup_cons.2 ⟨hnew, s.nodup_entries⟩)).2 fun ⟨k, b⟩ => ?_
  rw [mem_entries, get?_insert, List.mem_cons, mem_entries, Prod.mk.injEq]
  by_cases hk : k = s.nextKey
  · simp [hk, eq_comm]
  · simp [hk]

/-- Removing a key takes its entry away. -/
theorem perm_entries_remove (s : Slab α) (key : Nat) :
    (s.remove key).entries.Perm (s.entries.filter (·.1 ≠ key)) := by
  refine (List.perm_ext_iff_of_nodup (nodup_entries _) (s.nodup_entries.filter _)).2
    fun ⟨k, b⟩ => ?_
  rw [mem_entries, get?_remove, List.mem_filter, mem_entries]
  by_cases hk : key = k
  · simp [hk]
  · simp [hk, Ne.symm hk]

/-- With no key freed, the next key is above all keys in use. -/
theorem lt_nextKey (hvacant : s.vacant = []) (h : s.get? k = some a) : k < s.nextKey := by
  have hnext : s.nextKey = s.capacity := by simp [nextKey, hvacant, capacity]
  exact hnext ▸ lt_capacity h

theorem vacant_insert (hvacant : s.vacant = []) (a : α) : (s.insert a).vacant = [] := by
  unfold insert
  split
  · rfl
  · rename_i k ks hk
    cases hvacant.symm.trans hk

theorem map_snd_entries (s : Slab α) : s.entries.map (·.2) = s.toList := by
  have hslots : s.slots.toList = (List.range s.capacity).map fun k => s.get? k := by
    refine List.ext_getElem (by simp [capacity]) fun k hk _ => ?_
    simp only [Array.length_toList] at hk
    simp [get?, hk]
  unfold entries toList
  rw [hslots, List.map_filterMap, List.filterMap_map]
  congr 1
  funext k
  simp [Function.comp_def]

end Slab

namespace Emitter

variable {α : Type}

/-- The listeners under a name with their keys, in the order in which they are
called. -/
def called (e : Emitter α) (name : String) : List (Nat × α) :=
  (e.topic name).entries

theorem map_snd_called (e : Emitter α) (name : String) :
    (e.called name).map (·.2) = e.listeners name :=
  Slab.map_snd_entries _

theorem mem_called {e : Emitter α} {name : String} {key : Nat} {l : α} :
    (key, l) ∈ e.called name ↔ e.get? name key = some l :=
  Slab.mem_entries

/-- Of two listeners the one with the smaller key is called first. -/
theorem pair_sublist_called_iff {e : Emitter α} {name : String} {k₁ k₂ : Nat} {l₁ l₂ : α}
    (h₁ : e.get? name k₁ = some l₁) (h₂ : e.get? name k₂ = some l₂) :
    [(k₁, l₁), (k₂, l₂)].Sublist (e.called name) ↔ k₁ < k₂ := by
  constructor
  · intro h
    simpa using (Slab.pairwise_entries _).sublist h
  · intro hlt
    obtain ⟨before, rest, hsplit⟩ := List.append_of_mem (mem_called.2 h₁)
    have hmem : (k₂, l₂) ∈ before ++ (k₁, l₁) :: rest := hsplit ▸ mem_called.2 h₂
    have hpairs : (before ++ (k₁, l₁) :: rest).Pairwise fun x y => x.1 < y.1 :=
      hsplit ▸ Slab.pairwise_entries (e.topic name)
    have hbefore : (k₂, l₂) ∉ before := fun hm => by
      have := (List.pairwise_append.1 hpairs).2.2 _ hm _ (List.mem_cons_self ..)
      exact absurd hlt (Nat.lt_asymm this)
    rcases List.mem_append.1 hmem with hm | hm
    · exact absurd hm hbefore
    · rcases List.mem_cons.1 hm with heq | hm
      · have : k₂ = k₁ := congrArg Prod.fst heq
        omega
      · rw [hsplit]
        refine List.sublist_append_of_sublist_right ?_
        exact List.Sublist.cons_cons _ (List.singleton_sublist.2 hm)

/-- A listener stays under its key as long as no call takes it away. -/
theorem get?_afterOn {earlier later : List (Call α)} {name : String} {l : α}
    (h : ∀ c ∈ later, ¬ Takes name (handle earlier name) c) :
    (afterOn earlier name l later).get? name (handle earlier name) = some l := by
  have law := placeLaw (α := α) name (handle earlier name)
  have hearlier : (after earlier).topics.Distinct :=
    law.sound_foldl OrderedMap.distinct_empty earlier
  rw [afterOn_eq]
  exact law.stays (law.preserved _ hearlier) (law.filled hearlier (if_pos ⟨rfl, rfl⟩)) h

/-- A listener that is there comes from a call that registered it, and no call since has
taken it away. -/
theorem exists_on {cs : List (Call α)} {name : String} {key : Nat} {l : α}
    (h : (after cs).get? name key = some l) :
    ∃ earlier later, cs = earlier ++ .on name l :: later ∧ handle earlier name = key ∧
      ∀ c ∈ later, ¬ Takes name key c := by
  rcases (placeLaw (α := α) name key).origin OrderedMap.distinct_empty h with
    ⟨hempty, -⟩ | ⟨earlier, c, later, hcs, hc, hlater⟩
  · cases hempty
  · cases c with
    | off other k => cases hc
    | offAll other => cases hc
    | on other a =>
        simp only [registers, Option.ite_none_right_eq_some, Option.some.injEq] at hc
        obtain ⟨⟨rfl, hkey⟩, rfl⟩ := hc
        exact ⟨earlier, later, hcs, hkey, hlater⟩

/-! ## Registrations whose listener is still there -/

/-- A call among calls that registered a listener under a name, where no call since has
taken the listener away. -/
structure Registration (cs : List (Call α)) (name : String) where
  earlier : List (Call α)
  listener : α
  later : List (Call α)
  split : cs = earlier ++ .on name listener :: later
  kept : ∀ c ∈ later, ¬ Takes name (handle earlier name) c

namespace Registration

variable {cs : List (Call α)} {name : String}

/-- The key that the listener was given. -/
def key (r : Registration cs name) : Nat :=
  handle r.earlier name

/-- The key and the listener. -/
def entry (r : Registration cs name) : Nat × α :=
  (r.key, r.listener)

/-- The one call came before the other. -/
def Before (r s : Registration cs name) : Prop :=
  r.earlier.length < s.earlier.length

/-- The listener is there after the calls. -/
theorem get?_after (r : Registration cs name) :
    (after cs).get? name r.key = some r.listener := by
  have hafter := get?_afterOn (l := r.listener) r.kept
  rwa [afterOn, ← r.split] at hafter

/-- What came before the later of two calls begins with what the earlier one is
part of. -/
theorem earlier_of_before {r s : Registration cs name} (h : r.Before s) :
    ∃ between, s.earlier = r.earlier ++ .on name r.listener :: between ∧
      r.later = between ++ .on name s.listener :: s.later := by
  have hprefix : (r.earlier ++ [.on name r.listener]) <+: s.earlier := by
    have hcs : (r.earlier ++ [.on name r.listener]) <+: cs := ⟨r.later, by simp [← r.split]⟩
    refine List.prefix_of_prefix_length_le hcs ⟨_, s.split.symm⟩ ?_
    simpa using Nat.succ_le_of_lt h
  obtain ⟨between, hbetween⟩ := hprefix
  refine ⟨between, by simp [← hbetween], ?_⟩
  have hsplit := r.split.symm.trans s.split
  rw [← hbetween, List.append_assoc, List.append_assoc, List.append_cancel_left_eq] at hsplit
  simpa using hsplit

/-- A listener whose call came before another one was there when that was made. -/
theorem get?_earlier {r s : Registration cs name} (h : r.Before s) :
    (after s.earlier).get? name r.key = some r.listener := by
  obtain ⟨between, hearlier, hlater⟩ := earlier_of_before h
  rw [hearlier]
  exact get?_afterOn fun c hc => r.kept c (hlater ▸ List.mem_append_left _ hc)

/-- What is there under a key when a call is made comes from a call before it, if no
call since has taken it away. -/
theorem exists_before (s : Registration cs name) {key : Nat} {l : α}
    (h : (after s.earlier).get? name key = some l) (hkept : ∀ c ∈ s.later, ¬ Takes name key c) :
    ∃ r : Registration cs name, r.Before s ∧ r.entry = (key, l) := by
  obtain ⟨first, between, hs, rfl, hbetween⟩ := exists_on h
  have hsplit : cs = first ++ .on name l :: (between ++ .on name s.listener :: s.later) := by
    simpa [hs] using s.split
  refine ⟨⟨first, l, _, hsplit, ?_⟩, by simp [Before, hs], rfl⟩
  intro c hc
  rcases List.mem_append.1 hc with hc | hc
  · exact hbetween c hc
  · rcases List.mem_cons.1 hc with rfl | hc
    · exact id
    · exact hkept c hc

end Registration

/-- What is called are the listeners of the registrations. -/
theorem mem_called_iff {cs : List (Call α)} {name : String} {x : Nat × α} :
    x ∈ (after cs).called name ↔ ∃ r : Registration cs name, r.entry = x := by
  constructor
  · intro hx
    obtain ⟨earlier, later, hsplit, hkey, hkept⟩ := exists_on (mem_called.1 hx)
    exact ⟨⟨earlier, x.2, later, hsplit, hkey ▸ hkept⟩, Prod.ext hkey rfl⟩
  · rintro ⟨r, rfl⟩
    exact mem_called.2 r.get?_after

/-! ## The order -/

/-- Of any two listeners that are still there, the one whose call came first is called
first. -/
def CalledInOrder (cs : List (Call α)) (name : String) : Prop :=
  ∀ r s : Registration cs name, r.Before s → [r.entry, s.entry].Sublist ((after cs).called name)

/-- Whenever a listener that is still there was given a key below one in use, the
listener under that one was taken away later. -/
def NeverBelow (cs : List (Call α)) (name : String) : Prop :=
  ∀ (s : Registration cs name) (key : Nat), ((after s.earlier).get? name key).isSome →
    s.key < key → ∃ c ∈ s.later, Takes name key c

/-- Emitting a name calls the listeners under it that calls have registered and not
taken away, each of them once, and calls them in the order of their registration
exactly if none was given a key below that of an earlier one. -/
theorem calledInOrder_iff (cs : List (Call α)) (name : String) :
    ((after cs).called name).map (·.2) = (after cs).listeners name ∧
    ((after cs).called name).Nodup ∧
    (∀ x, x ∈ (after cs).called name ↔ ∃ r : Registration cs name, r.entry = x) ∧
    (CalledInOrder cs name ↔ NeverBelow cs name) := by
  refine ⟨map_snd_called _ _, ?_, fun _ => mem_called_iff, ?_, ?_⟩
  · exact (Slab.pairwise_entries _).imp fun h heq => absurd (congrArg Prod.fst heq) (Nat.ne_of_lt h)
  · intro horder s key hkey hlt
    obtain ⟨l, hl⟩ := Option.isSome_iff_exists.1 hkey
    by_contra hnone
    obtain ⟨r, hbefore, hentry⟩ := s.exists_before hl fun c hc htakes => hnone ⟨c, hc, htakes⟩
    have hrs := (pair_sublist_called_iff r.get?_after s.get?_after).1 (horder r s hbefore)
    have hr : r.key = key := congrArg Prod.fst hentry
    omega
  · intro hnever r s hbefore
    refine (pair_sublist_called_iff r.get?_after s.get?_after).2 ?_
    have hearlier := Registration.get?_earlier hbefore
    rcases Nat.lt_trichotomy r.key s.key with hlt | heq | hgt
    · exact hlt
    · -- a key in use is not given out
      rw [heq, Registration.key, handle, get?_nextKey] at hearlier
      cases hearlier
    · obtain ⟨c, hc, htakes⟩ := hnever s r.key (by simp [hearlier]) hgt
      obtain ⟨between, -, hlater⟩ := Registration.earlier_of_before hbefore
      exact absurd htakes (r.kept c (by simp [hlater, hc]))

theorem after_concat (cs : List (Call α)) (c : Call α) :
    after (cs ++ [c]) = (after cs).call c := by
  rw [after, List.foldl_append, List.foldl_cons, List.foldl_nil, ← after]

/-- Under a name that nothing was taken away from, no key has been freed. -/
theorem vacant_after {cs : List (Call α)} {name : String}
    (h : ∀ c ∈ cs, ∀ key, ¬ Takes name key c) : ((after cs).topic name).vacant = [] := by
  induction cs using List.reverseRecOn with
  | nil => rfl
  | append_singleton cs c ih =>
      have hcs : ((after cs).topic name).vacant = [] := ih fun d hd => h d (by simp [hd])
      have hc : ∀ key, ¬ Takes name key c := h c (by simp)
      rw [after_concat]
      cases c with
      | on other l =>
          rw [call, topic_on]
          split
          · rename_i heq
            exact Slab.vacant_insert (heq ▸ hcs) l
          · exact hcs
      | off other key =>
          have hne : other ≠ name := fun heq => hc key ⟨heq, rfl⟩
          rwa [call, topic_off, if_neg hne]
      | offAll other =>
          have hne : other ≠ name := fun heq => hc 0 heq
          have hdistinct : (after cs).topics.Distinct :=
            (placeLaw name 0).sound_foldl OrderedMap.distinct_empty cs
          rwa [call, topic, offAll, hdistinct.get?_erase, if_neg hne]

/-- Listeners under a name that nothing was taken away from are called in order. -/
theorem calledInOrder_of_untouched {cs : List (Call α)} {name : String}
    (h : ∀ c ∈ cs, ∀ key, ¬ Takes name key c) : CalledInOrder cs name := by
  intro r s hbefore
  refine (pair_sublist_called_iff r.get?_after s.get?_after).2 ?_
  have hvacant : ((after s.earlier).topic name).vacant = [] :=
    vacant_after fun c hc => h c (by rw [s.split]; exact List.mem_append_left _ hc)
  exact Slab.lt_nextKey hvacant (Registration.get?_earlier hbefore)

/-- A listener registered after another one was removed is called before one that was
there already. -/
theorem not_calledInOrder_reused :
    ¬ CalledInOrder [.on "save" 1, .on "save" 2, .off "save" 0, .on "save" 3] "save" := by
  intro horder
  have hkey : handle [.on "save" 1] "save" = 1 := by decide
  have hsublist : [(1, 2), (0, 3)].Sublist
      ((after [.on "save" 1, .on "save" 2, .off "save" 0, .on "save" 3]).called "save") :=
    horder ⟨[.on "save" 1], 2, [.off "save" 0, .on "save" 3], rfl, by simp [Takes, hkey]⟩
      ⟨[.on "save" 1, .on "save" 2, .off "save" 0], 3, [], rfl, by simp⟩ (show 1 < 3 by decide)
  exact absurd hsublist (by decide)

end Emitter

end LiveMarkup
