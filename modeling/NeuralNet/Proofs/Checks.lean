import Mathlib.Data.List.Forall2

/-!
# Checks in sequence

Of checks one after another each has passed when all have. What passed is related element by element
to what was checked.
-/

namespace NeuralNet

variable {ε α β γ : Type}

theorem ok_bind (a : α) (f : α → Except ε β) : Except.ok a >>= f = f a := rfl

theorem error_bind (e : ε) (f : α → Except ε β) : Except.error e >>= f = .error e := rfl

theorem bind_eq_ok_iff {x : Except ε α} {f : α → Except ε β} {b : β} :
    x >>= f = .ok b ↔ ∃ a, x = .ok a ∧ f a = .ok b := by
  constructor
  · intro h
    cases x with
    | error e => cases h
    | ok a => exact ⟨a, rfl, h⟩
  · rintro ⟨a, rfl, h⟩
    exact h

theorem map_eq_ok_iff {x : Except ε α} {f : α → β} {b : β} :
    f <$> x = .ok b ↔ ∃ a, x = .ok a ∧ f a = b := by
  cases x with
  | error e => simp [Functor.map, Except.map]
  | ok a => simp [Functor.map, Except.map]

theorem ite_error_eq_ok_iff {p : Prop} [Decidable p] {e : ε} {x : Except ε β} {b : β} :
    (if p then .error e else x) = .ok b ↔ ¬p ∧ x = .ok b := by
  by_cases h : p
  · simp [h]
  · simp [h]

theorem ite_ok_eq_ok_iff {p : Prop} [Decidable p] {e : ε} {a b : β} :
    (if p then .ok a else .error e : Except ε β) = .ok b ↔ p ∧ b = a := by
  by_cases h : p
  · simp [h, eq_comm]
  · simp [h]

theorem guard_eq_ok_iff {p : Prop} [Decidable p] {e : ε} {f : γ → Except ε β} {x : Except ε β}
    {b : β} : (if p then throw e >>= f else x) = .ok b ↔ ¬p ∧ x = .ok b :=
  ite_error_eq_ok_iff

theorem mapM_eq_ok_iff {f : α → Except ε β} {as : List α} {bs : List β} :
    as.mapM f = .ok bs ↔ List.Forall₂ (fun a b => f a = .ok b) as bs := by
  induction as generalizing bs with
  | nil =>
    rw [List.mapM_nil, List.forall₂_nil_left_iff]
    constructor
    · intro h
      cases h
      rfl
    · rintro rfl
      rfl
  | cons a as ih =>
    rw [List.mapM_cons, bind_eq_ok_iff, List.forall₂_cons_left_iff]
    constructor
    · rintro ⟨b, hb, h⟩
      obtain ⟨rest, hrest, h⟩ := bind_eq_ok_iff.mp h
      cases h
      exact ⟨b, rest, hb, ih.mp hrest, rfl⟩
    · rintro ⟨b, rest, hb, hrest, rfl⟩
      exact ⟨b, hb, bind_eq_ok_iff.mpr ⟨rest, ih.mpr hrest, rfl⟩⟩

theorem exists_of_mapM_error {f : α → Except ε β} {as : List α} {e : ε} (h : as.mapM f = .error e) :
    ∃ a ∈ as, f a = .error e := by
  induction as with
  | nil => cases h
  | cons a as ih =>
    rw [List.mapM_cons] at h
    cases ha : f a with
    | error e' =>
      rw [ha] at h
      cases h
      exact ⟨a, List.mem_cons_self, ha⟩
    | ok b =>
      rw [ha] at h
      cases hrest : as.mapM f with
      | error e' =>
        rw [hrest] at h
        cases h
        obtain ⟨c, hc, herror⟩ := ih hrest
        exact ⟨c, List.mem_cons_of_mem a hc, herror⟩
      | ok bs =>
        rw [hrest] at h
        cases h

theorem mapM_eq_some_iff {f : α → Option β} {as : List α} {bs : List β} :
    as.mapM f = some bs ↔ List.Forall₂ (fun a b => f a = some b) as bs := by
  induction as generalizing bs with
  | nil =>
    rw [List.mapM_nil, List.forall₂_nil_left_iff]
    constructor
    · intro h
      cases h
      rfl
    · rintro rfl
      rfl
  | cons a as ih =>
    rw [List.mapM_cons, List.forall₂_cons_left_iff]
    constructor
    · intro h
      obtain ⟨b, hb, h⟩ := Option.bind_eq_some_iff.mp h
      obtain ⟨rest, hrest, h⟩ := Option.bind_eq_some_iff.mp h
      cases h
      exact ⟨b, rest, hb, ih.mp hrest, rfl⟩
    · rintro ⟨b, rest, hb, hrest, rfl⟩
      exact Option.bind_eq_some_iff.mpr
        ⟨b, hb, Option.bind_eq_some_iff.mpr ⟨rest, ih.mpr hrest, rfl⟩⟩

variable {R : α → β → Prop} {P : β → Prop} {as : List α} {bs : List β}

theorem forall₂_and_right (h : List.Forall₂ R as bs) (hP : ∀ b ∈ bs, P b) :
    List.Forall₂ (fun a b => R a b ∧ P b) as bs := by
  induction h with
  | nil => exact .nil
  | cons h _ ih =>
    obtain ⟨hb, hP⟩ := List.forall_mem_cons.mp hP
    exact .cons ⟨h, hb⟩ (ih hP)

theorem forall₂_and {S : α → β → Prop} :
    List.Forall₂ (fun a b => R a b ∧ S a b) as bs ↔
      List.Forall₂ R as bs ∧ List.Forall₂ S as bs := by
  simp only [List.forall₂_iff_zip]
  constructor
  · rintro ⟨hlen, h⟩
    exact ⟨⟨hlen, fun hab => (h hab).1⟩, hlen, fun hab => (h hab).2⟩
  · rintro ⟨⟨hlen, hR⟩, -, hS⟩
    exact ⟨hlen, fun hab => ⟨hR hab, hS hab⟩⟩

theorem exists_of_mem_left {a : α} (h : List.Forall₂ R as bs) (ha : a ∈ as) :
    ∃ b ∈ bs, R a b := by
  induction h with
  | nil => cases ha
  | cons hab _ ih =>
    rcases List.mem_cons.mp ha with rfl | ha
    · exact ⟨_, List.mem_cons_self, hab⟩
    · obtain ⟨b, hb, h⟩ := ih ha
      exact ⟨b, List.mem_cons_of_mem _ hb, h⟩

theorem exists_of_mem_right {b : β} (h : List.Forall₂ R as bs) (hb : b ∈ bs) :
    ∃ a ∈ as, R a b :=
  exists_of_mem_left (R := fun b a => R a b) h.flip hb

theorem exists_forall₂ : (∃ bs, List.Forall₂ R as bs) ↔ ∀ a ∈ as, ∃ b, R a b := by
  constructor
  · rintro ⟨bs, h⟩ a ha
    obtain ⟨b, -, hab⟩ := exists_of_mem_left h ha
    exact ⟨b, hab⟩
  · intro h
    induction as with
    | nil => exact ⟨[], .nil⟩
    | cons a as ih =>
      obtain ⟨⟨b, hab⟩, h⟩ := List.forall_mem_cons.mp h
      obtain ⟨bs, hall⟩ := ih h
      exact ⟨b :: bs, .cons hab hall⟩

/-- Lists that are related to the same list are related to each other. -/
theorem forall₂_of_common {S : α → γ → Prop} {T : β → γ → Prop} {cs : List γ}
    (h : List.Forall₂ R as bs) (k : List.Forall₂ S as cs)
    (hT : ∀ a b c, R a b → S a c → T b c) : List.Forall₂ T bs cs := by
  induction h generalizing cs with
  | nil =>
    cases k
    exact .nil
  | cons h _ ih =>
    cases k with
    | cons hk k => exact .cons (hT _ _ _ h hk) (ih k)

/-- What is related to an element is its image, if there is anything. -/
theorem forall₂_function_iff {f : α → β} {Q : α → Prop}
    (h : ∀ a ∈ as, ∀ b, R a b ↔ Q a ∧ f a = b) :
    List.Forall₂ R as bs ↔ (∀ a ∈ as, Q a) ∧ as.map f = bs := by
  induction as generalizing bs with
  | nil => simp [eq_comm]
  | cons a as ih =>
    obtain ⟨ha, has⟩ := List.forall_mem_cons.mp h
    rw [List.forall₂_cons_left_iff, List.forall_mem_cons, List.map_cons]
    constructor
    · rintro ⟨b, bs, hb, hbs, rfl⟩
      obtain ⟨hQ, rfl⟩ := (ha b).mp hb
      obtain ⟨hall, rfl⟩ := (ih has).mp hbs
      exact ⟨⟨hQ, hall⟩, rfl⟩
    · rintro ⟨⟨hQ, hall⟩, rfl⟩
      exact ⟨_, _, (ha _).mpr ⟨hQ, rfl⟩, (ih has).mpr ⟨hall, rfl⟩, rfl⟩

theorem map_eq_map_of_forall₂ {f : α → γ} {g : β → γ} (h : List.Forall₂ R as bs)
    (hR : ∀ a b, R a b → g b = f a) : bs.map g = as.map f := by
  induction h with
  | nil => rfl
  | cons h _ ih => rw [List.map_cons, List.map_cons, hR _ _ h, ih]

end NeuralNet
