import LiveMarkup.Reactive.Machine

/-!
# Handles of listeners

A listener is removed by the key that it was registered under. A key in use is never
given to another listener, so a listener stays under its key until a call frees the
key. But a freed key is given out again, and a handle is nothing but the key: one
whose listener is gone removes whoever was registered under the same key since.

So a handle concerns its own listener alone exactly as long as its key has not been
given out again to a listener that is still there (`handles_concernOwn_iff`). What
calls do to the place of one key is the same for emitters and cells (`PlaceLaw`), and
so is what follows from it over a history of calls.
-/

namespace LiveMarkup

/-! ## One place through a history -/

section Place

variable {σ κ α : Type} {step : σ → κ → σ} {sound : σ → Prop} {place : σ → Option α}
  {fills : σ → κ → Option α} {frees : κ → Prop} {s : σ} {a : α} {cs : List κ}

/-- What calls do to the place of one key: a call fills it, which happens only when it
is vacant, or frees it, or leaves it alone. -/
structure PlaceLaw (step : σ → κ → σ) (sound : σ → Prop) (place : σ → Option α)
    (fills : σ → κ → Option α) (frees : κ → Prop) : Prop where
  preserved {s : σ} (c : κ) : sound s → sound (step s c)
  vacant {s : σ} {c : κ} {a : α} : sound s → fills s c = some a → place s = none
  filled {s : σ} {c : κ} {a : α} : sound s → fills s c = some a → place (step s c) = some a
  freed {s : σ} {c : κ} : sound s → frees c → place (step s c) = none
  kept {s : σ} {c : κ} : sound s → fills s c = none → ¬ frees c → place (step s c) = place s

namespace PlaceLaw

theorem sound_foldl (law : PlaceLaw step sound place fills frees) (hs : sound s) (cs : List κ) :
    sound (cs.foldl step s) := by
  induction cs generalizing s with
  | nil => exact hs
  | cons c cs ih => exact ih (law.preserved c hs)

/-- What is in the place stays there as long as no call frees it. -/
theorem stays (law : PlaceLaw step sound place fills frees) (hs : sound s)
    (h : place s = some a) (hcs : ∀ c ∈ cs, ¬ frees c) : place (cs.foldl step s) = some a := by
  induction cs generalizing s with
  | nil => exact h
  | cons c cs ih =>
      have hc : place (step s c) = some a := by
        cases hf : fills s c with
        | none => rw [law.kept hs hf (hcs c (List.mem_cons_self ..)), h]
        | some b => simp [law.vacant hs hf] at h
      exact ih (law.preserved c hs) hc fun d hd => hcs d (List.mem_cons_of_mem _ hd)

/-- What is in the place was there before, or a call has filled the place with it, and
no call since has freed it. -/
theorem origin (law : PlaceLaw step sound place fills frees) (hs : sound s)
    (h : place (cs.foldl step s) = some a) :
    (place s = some a ∧ ∀ c ∈ cs, ¬ frees c) ∨
    ∃ earlier c later, cs = earlier ++ c :: later ∧
      fills (earlier.foldl step s) c = some a ∧ ∀ d ∈ later, ¬ frees d := by
  induction cs generalizing s with
  | nil => exact Or.inl ⟨h, by simp⟩
  | cons c cs ih =>
      rcases ih (law.preserved c hs) h with ⟨hplace, hcs⟩ | ⟨earlier, d, later, rfl, hd, hlater⟩
      · cases hf : fills s c with
        | some b =>
            rw [law.filled hs hf, Option.some.injEq] at hplace
            exact Or.inr ⟨[], c, cs, rfl, hplace ▸ hf, hcs⟩
        | none =>
            have hc : ¬ frees c := fun hc => by simp [law.freed hs hc] at hplace
            rw [law.kept hs hf hc] at hplace
            exact Or.inl ⟨hplace, by simpa using ⟨hc, hcs⟩⟩
      · exact Or.inr ⟨c :: earlier, d, later, rfl, hd, hlater⟩

/-- A place that was freed is vacant exactly when whatever filled it since was taken
away again. -/
theorem vacant_iff (law : PlaceLaw step sound place fills frees) (hs : sound s)
    (h : ∃ c ∈ cs, frees c) :
    place (cs.foldl step s) = none ↔
      ∀ earlier c later a, cs = earlier ++ c :: later →
        fills (earlier.foldl step s) c = some a → ∃ d ∈ later, frees d := by
  constructor
  · intro hnone earlier c later a hcs ha
    apply Classical.byContradiction
    intro hlater
    have hearlier := law.sound_foldl hs earlier
    have hkept : place (later.foldl step (step (earlier.foldl step s) c)) = some a :=
      law.stays (law.preserved c hearlier) (law.filled hearlier ha) fun d hd hf =>
        hlater ⟨d, hd, hf⟩
    rw [hcs, List.foldl_append, List.foldl_cons, hkept] at hnone
    cases hnone
  · intro hall
    cases hplace : place (cs.foldl step s) with
    | none => rfl
    | some a =>
        rcases law.origin hs hplace with ⟨-, hcs⟩ | ⟨earlier, c, later, hcs, ha, hlater⟩
        · obtain ⟨c, hc, hf⟩ := h
          exact absurd hf (hcs c hc)
        · obtain ⟨d, hd, hf⟩ := hall earlier c later a hcs ha
          exact absurd hf (hlater d hd)

/-- What filled the place is gone for good once it was taken away, exactly when
whatever fills the place later is taken away again. -/
theorem gone_iff (law : PlaceLaw step sound place fills frees) (hs : sound s)
    (h : place s = some a) (cs : List κ) :
    ((∃ c ∈ cs, frees c) → place (cs.foldl step s) = none) ↔
      ∀ earlier c later b, cs = earlier ++ c :: later →
        fills (earlier.foldl step s) c = some b → ∃ d ∈ later, frees d := by
  by_cases hcs : ∃ c ∈ cs, frees c
  · rw [← law.vacant_iff hs hcs]
    simp [hcs]
  · refine iff_of_true (fun hfreed => absurd hfreed hcs) fun earlier c later b hsplit hb => ?_
    -- the place is in use all along, so no call fills it
    have hkept : place (earlier.foldl step s) = some a :=
      law.stays hs h fun d hd hf => hcs ⟨d, hsplit ▸ List.mem_append_left _ hd, hf⟩
    rw [law.vacant (law.sound_foldl hs earlier) hb] at hkept
    cases hkept

end PlaceLaw

end Place

theorem Slab.remove_of_get?_eq_none {α : Type} {s : Slab α} {k : Nat} (h : s.get? k = none) :
    s.remove k = s := by
  unfold Slab.remove
  split
  · rename_i a ha
    simp [Slab.get?, ha] at h
  · rfl

/-! ## Emitters -/

namespace Emitter

variable {α : Type}

/-- A call that registers or removes listeners. -/
inductive Call (α : Type) where
  | on (name : String) (listener : α)
  | off (name : String) (key : Nat)
  | offAll (name : String)

/-- The emitter after a call. -/
def call (e : Emitter α) : Call α → Emitter α
  | .on name l => e.on name l
  | .off name key => e.off name key
  | .offAll name => e.offAll name

/-- The emitter after calls made one after the other, from one without listeners. -/
def after (cs : List (Call α)) : Emitter α :=
  cs.foldl call empty

/-- What a call registers under a name and a key. -/
def registers (name : String) (key : Nat) (e : Emitter α) : Call α → Option α
  | .on other l => if other = name ∧ e.nextKey name = key then some l else none
  | _ => none

/-- A call takes away what is registered under a name and a key. -/
def Takes (name : String) (key : Nat) : Call α → Prop
  | .on _ _ => False
  | .off other k => other = name ∧ k = key
  | .offAll other => other = name

theorem get?_offAll {e : Emitter α} (h : e.topics.Distinct) (name other : String) (key : Nat) :
    (e.offAll name).get? other key = if name = other then none else e.get? other key := by
  simp only [get?, topic, offAll, h.get?_erase]
  split <;> simp

theorem off_of_get?_eq_none {e : Emitter α} {name : String} {key : Nat}
    (h : e.get? name key = none) : e.off name key = e := by
  unfold off
  split
  · rfl
  · rename_i slab hslab
    have hkey : slab.get? key = none := by simpa [get?, topic, hslab] using h
    rw [Slab.remove_of_get?_eq_none hkey, OrderedMap.insert_of_get? hslab]

/-- The place of a key under a name. -/
theorem placeLaw (name : String) (key : Nat) :
    PlaceLaw (call (α := α)) (·.topics.Distinct) (·.get? name key) (registers name key)
      (Takes name key) where
  preserved := by
    intro e c h
    cases c with
    | on other l => exact h.insert _ _
    | off other k =>
        simp only [call, off]
        split
        · exact h
        · exact h.insert _ _
    | offAll other => exact h.erase _
  vacant := by
    intro e c a _ ha
    cases c with
    | on other l =>
        simp only [registers, Option.ite_none_right_eq_some] at ha
        rw [← ha.1.2, get?_nextKey]
    | off other k => cases ha
    | offAll other => cases ha
  filled := by
    intro e c a _ ha
    cases c with
    | on other l =>
        simp only [registers, Option.ite_none_right_eq_some, Option.some.injEq] at ha
        obtain ⟨⟨rfl, rfl⟩, rfl⟩ := ha
        simp [call, get?_on]
    | off other k => cases ha
    | offAll other => cases ha
  freed := by
    intro e c h hc
    cases c with
    | on other l => cases hc
    | off other k => simp [call, get?_off, hc.1, hc.2]
    | offAll other => simp [call, get?_offAll h, show other = name from hc]
  kept := by
    intro e c h hfills htakes
    cases c with
    | on other l =>
        have hne : ¬ (other = name ∧ e.nextKey name = key) := by simpa [registers] using hfills
        simp only [call, get?_on]
        grind
    | off other k => simp [call, get?_off, show ¬ (other = name ∧ k = key) from htakes]
    | offAll other => simp [call, get?_offAll h, show ¬ other = name from htakes]

variable {earlier later : List (Call α)} {name : String} {l : α}

/-- The key that a listener is given after calls: its handle. -/
def handle (earlier : List (Call α)) (name : String) : Nat :=
  (after earlier).nextKey name

/-- The emitter after calls of which one registered a listener. -/
def afterOn (earlier : List (Call α)) (name : String) (l : α) (later : List (Call α)) :
    Emitter α :=
  after (earlier ++ .on name l :: later)

theorem afterOn_eq (earlier later : List (Call α)) (name : String) (l : α) :
    afterOn earlier name l later = later.foldl call (((after earlier).call (.on name l))) := by
  simp [afterOn, after]

/-- A handle concerns its own listener alone. While the listener is registered,
removing by the handle finds it and takes it away and nothing else. Once it was taken
away, removing by the handle finds nothing and changes nothing. -/
structure ConcernsOwn (earlier : List (Call α)) (name : String) (l : α) (later : List (Call α)) :
    Prop where
  registered : (∀ c ∈ later, ¬ Takes name (handle earlier name) c) →
    (afterOn earlier name l later).get? name (handle earlier name) = some l ∧
    ∀ other key, ((afterOn earlier name l later).off name (handle earlier name)).get? other key =
      if name = other ∧ handle earlier name = key then none
      else (afterOn earlier name l later).get? other key
  gone : (∃ c ∈ later, Takes name (handle earlier name) c) →
    (afterOn earlier name l later).get? name (handle earlier name) = none ∧
    (afterOn earlier name l later).off name (handle earlier name) = afterOn earlier name l later

/-- Whatever was registered under the name and the key of a handle after it was issued
was taken away again. -/
def Reclaimed (earlier : List (Call α)) (name : String) (l : α) (later : List (Call α)) : Prop :=
  ∀ between c rest l', later = between ++ c :: rest →
    registers name (handle earlier name) (afterOn earlier name l between) c = some l' →
    ∃ d ∈ rest, Takes name (handle earlier name) d

theorem concernsOwn_iff : ConcernsOwn earlier name l later ↔ Reclaimed earlier name l later := by
  have law := placeLaw (α := α) name (handle earlier name)
  have hearlier : (after earlier).topics.Distinct :=
    law.sound_foldl OrderedMap.distinct_empty earlier
  have hsound := law.preserved (.on name l) hearlier
  have hplace : ((after earlier).call (.on name l)).get? name (handle earlier name) = some l :=
    law.filled hearlier (if_pos ⟨rfl, rfl⟩)
  have hgone := law.gone_iff hsound hplace later
  simp only [← afterOn_eq] at hgone
  constructor
  · intro h
    exact hgone.1 fun htaken => (h.gone htaken).1
  · intro h
    constructor
    · intro hkept
      rw [afterOn_eq]
      exact ⟨law.stays hsound hplace hkept, fun other key => get?_off _ _ _ _ _⟩
    · intro htaken
      have hnone := hgone.2 h htaken
      exact ⟨hnone, off_of_get?_eq_none hnone⟩

end Emitter

/-! ## Cells -/

namespace Cell

variable {α χ β : Type}

/-- A call that changes a cell. -/
inductive Call (α χ β : Type) where
  | listen (listener : β)
  | unlisten (key : Nat)
  | submit (change : χ)
  | update (f : α → α)
  | clear

/-- The cell after a call. -/
def call (c : Cell α χ β) : Call α χ β → Cell α χ β
  | .listen l => c.listen l
  | .unlisten key => c.unlisten key
  | .submit x => c.submit x
  | .update f => c.update f
  | .clear => c.clear

/-- The cell after calls made one after the other, from a new one. -/
def after (v : α) (cs : List (Call α χ β)) : Cell α χ β :=
  cs.foldl call { value := v }

/-- What a call registers under a key. -/
def registers (key : Nat) (c : Cell α χ β) : Call α χ β → Option β
  | .listen l => if c.listeners.nextKey = key then some l else none
  | _ => none

/-- A call takes away what is registered under a key. -/
def Takes (key : Nat) (x : Call α χ β) : Prop :=
  x = .unlisten key

/-- The place of a key. -/
theorem placeLaw (key : Nat) :
    PlaceLaw (call (α := α) (χ := χ) (β := β)) (fun _ => True) (·.listeners.get? key)
      (registers key) (Takes key) where
  preserved _ _ := trivial
  vacant := by
    intro c x l _ hl
    cases x with
    | listen l' =>
        simp only [registers, Option.ite_none_right_eq_some] at hl
        rw [← hl.1, Slab.get?_nextKey]
    | _ => cases hl
  filled := by
    intro c x l _ hl
    cases x with
    | listen l' =>
        simp only [registers, Option.ite_none_right_eq_some, Option.some.injEq] at hl
        obtain ⟨rfl, rfl⟩ := hl
        simp [call, listen, Slab.get?_insert]
    | _ => cases hl
  freed := by
    intro c x _ hx
    cases hx
    simp [call, unlisten, Slab.get?_remove]
  kept := by
    intro c x _ hregisters htakes
    cases x with
    | listen l =>
        have hne : c.listeners.nextKey ≠ key := by simpa [registers] using hregisters
        simp [call, listen, Slab.get?_insert, Ne.symm hne]
    | unlisten k =>
        have hne : k ≠ key := by simpa [Takes] using htakes
        simp [call, unlisten, Slab.get?_remove, hne]
    | _ => rfl

variable {v : α} {earlier later : List (Call α χ β)} {l : β}

/-- The key that a listener is given after calls: its handle. -/
def handle (v : α) (earlier : List (Call α χ β)) : Nat :=
  (after v earlier).listeners.nextKey

/-- The cell after calls of which one registered a listener. -/
def afterListen (v : α) (earlier : List (Call α χ β)) (l : β) (later : List (Call α χ β)) :
    Cell α χ β :=
  after v (earlier ++ .listen l :: later)

theorem afterListen_eq (v : α) (earlier later : List (Call α χ β)) (l : β) :
    afterListen v earlier l later = later.foldl call ((after v earlier).call (.listen l)) := by
  simp [afterListen, after]

/-- A handle concerns its own listener alone, as for an emitter. -/
structure ConcernsOwn (v : α) (earlier : List (Call α χ β)) (l : β) (later : List (Call α χ β)) :
    Prop where
  registered : (∀ x ∈ later, ¬ Takes (handle v earlier) x) →
    (afterListen v earlier l later).listeners.get? (handle v earlier) = some l ∧
    ∀ key, ((afterListen v earlier l later).unlisten (handle v earlier)).listeners.get? key =
      if handle v earlier = key then none
      else (afterListen v earlier l later).listeners.get? key
  gone : (∃ x ∈ later, Takes (handle v earlier) x) →
    (afterListen v earlier l later).listeners.get? (handle v earlier) = none ∧
    (afterListen v earlier l later).unlisten (handle v earlier) = afterListen v earlier l later

/-- Whatever was registered under the key of a handle after it was issued was taken
away again. -/
def Reclaimed (v : α) (earlier : List (Call α χ β)) (l : β) (later : List (Call α χ β)) : Prop :=
  ∀ between x rest l', later = between ++ x :: rest →
    registers (handle v earlier) (afterListen v earlier l between) x = some l' →
    ∃ y ∈ rest, Takes (handle v earlier) y

theorem concernsOwn_iff : ConcernsOwn v earlier l later ↔ Reclaimed v earlier l later := by
  have law := placeLaw (α := α) (χ := χ) (β := β) (handle v earlier)
  have hplace : ((after v earlier).call (.listen l)).listeners.get? (handle v earlier) = some l :=
    law.filled trivial (if_pos rfl)
  have hgone := law.gone_iff trivial hplace later
  simp only [← afterListen_eq] at hgone
  constructor
  · intro h
    exact hgone.1 fun htaken => (h.gone htaken).1
  · intro h
    constructor
    · intro hkept
      rw [afterListen_eq]
      exact ⟨law.stays trivial hplace hkept, fun key => Slab.get?_remove _ _ _⟩
    · intro htaken
      have hnone := hgone.2 h htaken
      refine ⟨hnone, ?_⟩
      rw [unlisten, Slab.remove_of_get?_eq_none hnone]

end Cell

/-! ## Both -/

/-- A handle of an emitter or a cell concerns its own listener alone, whatever calls
were made before it was issued and since, exactly if no listener that was given the
same key later is still registered. -/
theorem handles_concernOwn_iff {α χ β : Type} :
    (∀ (earlier : List (Emitter.Call β)) (name : String) (l : β) (later : List (Emitter.Call β)),
      Emitter.ConcernsOwn earlier name l later ↔ Emitter.Reclaimed earlier name l later) ∧
    ∀ (v : α) (earlier : List (Cell.Call α χ β)) (l : β) (later : List (Cell.Call α χ β)),
      Cell.ConcernsOwn v earlier l later ↔ Cell.Reclaimed v earlier l later :=
  ⟨fun _ _ _ _ => Emitter.concernsOwn_iff, fun _ _ _ _ => Cell.concernsOwn_iff⟩

/-- A handle that was used removes the listener registered next. -/
theorem not_concernsOwn_used :
    ¬ Emitter.ConcernsOwn [] "ping" 1 [.off "ping" 0, .on "ping" 2] ∧
    ¬ Cell.ConcernsOwn (χ := Unit) () [] 1 [.unlisten 0, .listen 2] := by
  constructor
  · intro h
    have hnone := (h.gone ⟨_, List.mem_cons_self .., rfl, rfl⟩).1
    exact absurd hnone (by decide)
  · intro h
    have hnone := (h.gone ⟨_, List.mem_cons_self .., rfl⟩).1
    exact absurd hnone (by decide)

/-! ## Answers -/

namespace Machine

variable {α ρ : Type} {m : Machine α ρ} {label : String} {key : Nat}

/-- A request to remove a listener of the emitter is answered by whether there is one
under the handle. -/
theorem request_unsubscribe (hidle : m.stack = []) (hlabel : m.labels.get? label = some key)
    (word topic : String) :
    (m.request word (.unsubscribe topic label)).emitter = m.emitter.off topic key ∧
    (m.request word (.unsubscribe topic label)).reply =
      .truth (m.emitter.get? topic key).isSome := by
  simp [request, perform, hlabel, answer, hidle]

/-- The same for a listener of a cell. -/
theorem request_unlisten {name : String} {i : Nat} {c : Cell α (Change α ρ) (Script α ρ)}
    (hidle : m.stack = []) (hname : m.named? name = some (i, c))
    (hlabel : m.labels.get? label = some key) (word : String) :
    (m.request word (.unlisten name label)).cells = (m.put i (c.unlisten key)).cells ∧
    (m.request word (.unlisten name label)).reply = .truth (c.listeners.get? key).isSome := by
  have hnamed : ({ m with log := #[], reply := .nothing } : Machine α ρ).named? name =
      some (i, c) := hname
  rw [request, perform, withNamed, hnamed]
  simp [hlabel, answer, put, hidle]

end Machine

end LiveMarkup
