import Mathlib.Tactic.Common
import Backend65816.Match.Descriptor

/-!
# Values that patterns contain

A pattern contains the values it lists. The check of a match accepts exactly those whose listed
values lie in the domain of the scrutinee and whose arms contain every value of the domain.
-/

namespace Backend65816

open List MatchDescriptor Word

variable {range : Int × Int} {variant : String}

/-- The value is that of a variant of the scrutinee's enum. -/
def MatchDescriptor.isVariant (descriptor : MatchDescriptor) (enum variant : String)
    (value : Int) : Bool :=
  match descriptor.kind with
  | .enum declaration =>
    enum = declaration.name &&
      (declaration.variantIndex? variant).any fun (index : Nat) => decide ((index : Int) = value)
  | .int | .bool => false

mutual

def Pattern.contains (descriptor : MatchDescriptor) (value : Int) : Pattern → Bool
  | .literal number => decide (value = number)
  | .variant enum variant => descriptor.isVariant enum variant value
  | .range low high inclusive =>
    decide (low ≤ value) && decide (value ≤ if inclusive then high else wrap (high - 1))
  | .any alternatives => anyContains descriptor value alternatives
  | .wildcard | .bind _ => true

def anyContains (descriptor : MatchDescriptor) (value : Int) : List Pattern → Bool
  | [] => false
  | pattern :: rest => pattern.contains descriptor value || anyContains descriptor value rest

end

mutual

/-- Every list of alternatives in the pattern has one. -/
def Pattern.hasAlternatives : Pattern → Bool
  | .any alternatives => !alternatives.isEmpty && allHaveAlternatives alternatives
  | .literal _ | .variant _ _ | .range _ _ _ | .wildcard | .bind _ => true

/-- Every list of alternatives in the patterns has one. -/
def allHaveAlternatives : List Pattern → Bool
  | [] => true
  | pattern :: rest => pattern.hasAlternatives && allHaveAlternatives rest

end

/-- A part of a pattern is the pattern or one of its alternatives, at any depth. -/
inductive Pattern.Includes : Pattern → Pattern → Prop
  | self (pattern : Pattern) : Includes pattern pattern
  | any {alternatives : List Pattern} {pattern part : Pattern} (mem : pattern ∈ alternatives)
      (includes : Includes pattern part) : Includes (.any alternatives) part

def Pattern.HasWords (pattern : Pattern) : Prop :=
  ∀ low high inclusive, pattern.Includes (.range low high inclusive) → Word.InRange high

namespace MatchDescriptor

def firstMatch? (descriptor : MatchDescriptor) (value : Int) : Option Nat :=
  descriptor.arms.findIdx? fun arm => arm.pattern.contains descriptor value

def InDomain (descriptor : MatchDescriptor) (value : Int) : Prop :=
  descriptor.domain.1 ≤ value ∧ value ≤ descriptor.domain.2

instance (descriptor : MatchDescriptor) (value : Int) : Decidable (descriptor.InDomain value) :=
  inferInstanceAs (Decidable (_ ∧ _))

/-- The pattern is of values of the scrutinee. Its alternatives, if any, do not count. -/
def Admits (descriptor : MatchDescriptor) : Pattern → Prop
  | .literal value => (∀ decl, descriptor.kind ≠ .enum decl) ∧ descriptor.InDomain value
  | .range low high inclusive =>
    let last := if inclusive then high else high - 1
    (∀ decl, descriptor.kind ≠ .enum decl) ∧
      low ≤ last ∧ descriptor.domain.1 ≤ low ∧ last ≤ descriptor.domain.2
  | .variant enum variant =>
    ∃ decl, descriptor.kind = .enum decl ∧ enum = decl.name ∧ variant ∈ decl.variants
  | .any _ | .wildcard | .bind _ => True

/-- An arm takes all integers, or some arm takes each of the values of another type. -/
def Exhausts (descriptor : MatchDescriptor) : Prop :=
  match descriptor.kind with
  | .int => ∃ arm ∈ descriptor.arms, ∃ part, arm.pattern.Includes part ∧
      (part = .wildcard ∨ ∃ name, part = .bind name)
  | .bool | .enum _ => ∀ value, descriptor.InDomain value →
      ∃ arm ∈ descriptor.arms, arm.pattern.contains descriptor value = true

end MatchDescriptor

def Pattern.isListing : Pattern → Bool
  | .literal _ | .variant _ _ | .range _ _ _ => true
  | .any _ | .wildcard | .bind _ => false

section Coverage

theorem exists_of_map_eq_ok {ε α β : Type} {res : Except ε α} {f : α → β} {image : β}
    (mapped : res.map f = .ok image) : ∃ value, res = .ok value ∧ f value = image := by
  cases res with
  | error prob => cases mapped
  | ok value =>
    cases mapped
    exact ⟨value, rfl, rfl⟩

variable {desc : MatchDescriptor} {value : Int}

theorem exists_map_eq_ok_iff {ε α β : Type} {res : Except ε α} {f : α → β} :
    (∃ image, res.map f = .ok image) ↔ ∃ value, res = .ok value := by
  cases res <;> simp [Except.map]

theorem MatchDescriptor.variantValue_ok_iff {enum : String} {num : Int} :
    desc.variantValue enum variant = .ok num ↔ ∃ decl, desc.kind = .enum decl ∧
      enum = decl.name ∧ ∃ idx, decl.variantIndex? variant = some idx ∧ num = idx := by
  grind [variantValue, report]

section

variable {pattern : Pattern}

theorem Pattern.contains_of_valueRange {low high : Int} (listing : pattern.isListing = true)
    (ranged : desc.valueRange pattern = .ok (low, high)) :
    pattern.contains desc value = (decide (low ≤ value) && decide (value ≤ high)) := by
  cases pattern with
  | literal num =>
    cases ranged
    rw [Pattern.contains, ← Bool.decide_and, decide_eq_decide]
    omega
  | variant enum variant =>
    simp only [valueRange] at ranged
    cases valued : desc.variantValue enum variant with
    | error prob =>
      rw [valued] at ranged
      cases ranged
    | ok num =>
      rw [valued] at ranged
      cases ranged
      obtain ⟨decl, kind, rfl, idx, found, rfl⟩ := desc.variantValue_ok_iff.mp valued
      simp only [Pattern.contains, isVariant, kind, found]
      grind
  | range low high inclusive =>
    cases ranged
    rfl
  | any _ | wildcard | bind _ => cases listing

theorem MatchDescriptor.checkValues_ok_iff :
    desc.checkValues pattern = .ok range ↔ desc.valueRange pattern = .ok range ∧
      range.1 ≤ range.2 ∧ desc.domain.1 ≤ range.1 ∧ range.2 ≤ desc.domain.2 := by
  unfold checkValues
  cases desc.valueRange pattern with
  | error prob => exact iff_of_false nofun fun found => nomatch found.1
  | ok found =>
    simp only [bind, Except.bind, report]
    grind

theorem MatchDescriptor.checkNumeric_ok_iff :
    desc.checkNumeric pattern = .ok range ↔
      (∀ decl, desc.kind ≠ .enum decl) ∧ desc.checkValues pattern = .ok range := by
  grind [checkNumeric, report]

variable {coverage : Coverage}

theorem Pattern.coverage_listing (listing : pattern.isListing = true)
    (covered : pattern.coverage desc = .ok coverage) :
    ∃ range, desc.checkValues pattern = .ok range ∧ coverage = { ranges := [range] } := by
  cases pattern with
  | literal _ | range _ _ _ =>
    obtain ⟨range, checked, rfl⟩ := exists_of_map_eq_ok covered
    exact ⟨range, (desc.checkNumeric_ok_iff.mp checked).2, rfl⟩
  | variant enum variant =>
    obtain ⟨range, checked, rfl⟩ := exists_of_map_eq_ok covered
    exact ⟨range, checked, rfl⟩
  | any _ | wildcard | bind _ => cases listing

theorem coverageOfList_cons {rest : List Pattern}
    (covered : coverageOfList desc (pattern :: rest) = .ok coverage) :
    ∃ first others, pattern.coverage desc = .ok first ∧
      coverageOfList desc rest = .ok others ∧ coverage = first.union others := by
  rw [coverageOfList] at covered
  cases first_eq : pattern.coverage desc with
  | error prob =>
    rw [first_eq] at covered
    cases covered
  | ok first =>
    cases others_eq : coverageOfList desc rest with
    | error prob =>
      rw [first_eq, others_eq] at covered
      cases covered
    | ok others =>
      rw [first_eq, others_eq] at covered
      cases covered
      exact ⟨first, others, rfl, rfl, rfl⟩

end

mutual

theorem Pattern.coverage_spec {pattern : Pattern} {coverage : Coverage}
    (covered : pattern.coverage desc = .ok coverage) :
    coverage.catchAll = pattern.isCatchAll ∧
      pattern.contains desc value = (coverage.catchAll || coverage.covers value) := by
  cases pattern with
  | literal _ | range _ _ _ | variant _ _ =>
    obtain ⟨range, checked, rfl⟩ := Pattern.coverage_listing rfl covered
    rw [Pattern.contains_of_valueRange rfl (desc.checkValues_ok_iff.mp checked).1]
    simp [Coverage.covers, Pattern.isCatchAll]
  | any alternatives =>
    rw [Pattern.coverage] at covered
    rw [Pattern.isCatchAll, Pattern.contains]
    exact coverageOfList_spec covered
  | wildcard | bind _ =>
    cases covered
    exact ⟨rfl, rfl⟩

theorem coverageOfList_spec {patterns : List Pattern} {coverage : Coverage}
    (covered : coverageOfList desc patterns = .ok coverage) :
    coverage.catchAll = anyCatchAll patterns ∧
      anyContains desc value patterns = (coverage.catchAll || coverage.covers value) := by
  cases patterns with
  | nil =>
    cases covered
    exact ⟨rfl, rfl⟩
  | cons pattern rest =>
    obtain ⟨first, others, first_covered, rest_covered, rfl⟩ := coverageOfList_cons covered
    obtain ⟨first_all, first_contains⟩ := pattern.coverage_spec first_covered
    obtain ⟨rest_all, rest_contains⟩ := coverageOfList_spec rest_covered
    grind [anyCatchAll, anyContains, Coverage.union, Coverage.covers]

end

theorem anyContains_eq (patterns : List Pattern) :
    anyContains desc value patterns = patterns.any fun pattern => pattern.contains desc value := by
  induction patterns with
  | nil => rfl
  | cons pattern rest ih => rw [anyContains, ih, any_cons]

theorem anyCatchAll_eq (patterns : List Pattern) :
    anyCatchAll patterns = patterns.any Pattern.isCatchAll := by
  induction patterns with
  | nil => rfl
  | cons pattern rest ih => rw [anyCatchAll, ih, any_cons]

theorem Pattern.isCatchAll_iff (pattern : Pattern) : pattern.isCatchAll = true ↔
    ∃ part, pattern.Includes part ∧ (part = .wildcard ∨ ∃ name, part = .bind name) := by
  match pattern with
  | .wildcard => exact iff_of_true rfl ⟨_, .self _, .inl rfl⟩
  | .bind name => exact iff_of_true rfl ⟨_, .self _, .inr ⟨name, rfl⟩⟩
  | .literal _ | .variant _ _ | .range _ _ _ =>
    refine iff_of_false nofun ?_
    rintro ⟨part, has, takes⟩
    cases has
    grind
  | .any alternatives =>
    rw [Pattern.isCatchAll, anyCatchAll_eq, any_eq_true]
    constructor
    · rintro ⟨inner, mem, catches⟩
      obtain ⟨part, has, takes⟩ := inner.isCatchAll_iff.mp catches
      exact ⟨part, .any mem has, takes⟩
    · rintro ⟨part, has, takes⟩
      cases has with
      | self => grind
      | any mem has => exact ⟨_, mem, (Pattern.isCatchAll_iff _).mpr ⟨part, has, takes⟩⟩

theorem coverageOfList_ok_iff {patterns : List Pattern} :
    (∃ coverage, coverageOfList desc patterns = .ok coverage) ↔
      ∀ pattern ∈ patterns, ∃ coverage, pattern.coverage desc = .ok coverage := by
  induction patterns with
  | nil => exact ⟨fun _ => forall_mem_nil _, fun _ => ⟨_, rfl⟩⟩
  | cons pattern rest ih =>
    rw [forall_mem_cons, ← ih, coverageOfList]
    cases pattern.coverage desc <;> cases coverageOfList desc rest <;>
      simp [bind, Except.bind, pure, Except.pure]

theorem MatchDescriptor.check_ok_iff : desc.check = .ok () ↔ desc.arms ≠ [] ∧
    ∃ coverage, coverageOfList desc (desc.arms.map MatchArm.pattern) = .ok coverage ∧
      (coverage.catchAll = true ∨ desc.kind ≠ .int ∧
        ∀ num, desc.InDomain num → coverage.covers num = true) := by
  unfold check
  rw [← isEmpty_eq_false_iff]
  cases desc.arms.isEmpty with
  | true => simp [report]
  | false =>
    cases coverageOfList desc (desc.arms.map MatchArm.pattern) with
    | error prob => simp [bind, Except.bind]
    | ok coverage =>
      simp only [bind, Except.bind, pure, Except.pure, report, InDomain, domain]
      cases catches : coverage.catchAll with
      | true => simp [catches]
      | false =>
        cases desc.kind with
        | int => simp [catches]
        | bool =>
          simp [catches]
          grind
        | enum decl =>
          simp [catches]
          split
          · next missing =>
            refine iff_of_true rfl fun num low high => ?_
            have covered := List.find?_eq_none.mp missing (decl.variants[num.toNat], num.toNat)
            grind
          · next found =>
            have uncovered := List.find?_some found
            have mem := mem_of_find?_eq_some found
            grind

theorem MatchDescriptor.exhausts_iff {coverage : Coverage}
    (covered : coverageOfList desc (desc.arms.map MatchArm.pattern) = .ok coverage) :
    desc.Exhausts ↔ coverage.catchAll = true ∨ desc.kind ≠ .int ∧
      ∀ num, desc.InDomain num → coverage.covers num = true := by
  have contains (num : Int) := (@coverageOfList_spec desc num _ _ covered).2
  have catches := (@coverageOfList_spec desc 0 _ _ covered).1
  simp only [anyContains_eq, anyCatchAll_eq, any_map] at contains catches
  simp only [Exhausts, ← Pattern.isCatchAll_iff]
  cases desc.kind with
  | int | bool | enum => grind

theorem MatchDescriptor.exists_contains (accepted : desc.check = .ok ())
    (inside : desc.InDomain value) : ∃ arm ∈ desc.arms, arm.pattern.contains desc value = true := by
  obtain ⟨coverage, covered, complete⟩ := (desc.check_ok_iff.mp accepted).2
  have contained : anyContains desc value (desc.arms.map MatchArm.pattern) = true := by
    rw [(coverageOfList_spec covered).2]
    grind
  simp_all [anyContains_eq]

theorem MatchDescriptor.coverage_ok_of_mem_arms (accepted : desc.check = .ok ()) {arm : MatchArm}
    (mem : arm ∈ desc.arms) : ∃ coverage, arm.pattern.coverage desc = .ok coverage := by
  obtain ⟨-, coverage, covered, -⟩ := desc.check_ok_iff.mp accepted
  exact coverageOfList_ok_iff.mp ⟨coverage, covered⟩ _ (mem_map_of_mem mem)

/-! ## Valid patterns -/

theorem EnumDecl.exists_variantIndex_iff {decl : EnumDecl} :
    (∃ idx, decl.variantIndex? variant = some idx) ↔ variant ∈ decl.variants := by
  simp [variantIndex?, ← Option.isSome_iff_exists]

theorem Word.wrap_pred {high : Int} (word : Word.InRange high) :
    wrap (high - 1) = if high = least then greatest else high - 1 := by
  unfold Word.InRange least greatest at *
  rw [wrap, modulus, Int.bmod_def]
  omega

theorem MatchDescriptor.domain_words (numeric : ∀ decl, desc.kind ≠ .enum decl) :
    least ≤ desc.domain.1 ∧ desc.domain.2 < greatest := by
  grind [domain, least, greatest, Width.signBit, Width.mask]

theorem Pattern.coverage_ok_iff_admits {pattern : Pattern} (plain : pattern.isAny = false)
    (words : pattern.HasWords) :
    (∃ coverage, pattern.coverage desc = .ok coverage) ↔ desc.Admits pattern := by
  cases pattern with
  | wildcard | bind _ => exact iff_of_true ⟨_, rfl⟩ trivial
  | any => cases plain
  | literal num =>
    simp only [Pattern.coverage, exists_map_eq_ok_iff, checkNumeric_ok_iff,
      checkValues_ok_iff, valueRange, MatchDescriptor.Admits,
      MatchDescriptor.InDomain]
    grind
  | range low high inclusive =>
    have wrapped := wrap_pred (words low high inclusive (.self _))
    have inside := desc.domain_words
    simp only [Pattern.coverage, exists_map_eq_ok_iff, checkNumeric_ok_iff,
      checkValues_ok_iff, valueRange, MatchDescriptor.Admits]
    grind
  | variant enum variant =>
    rw [Pattern.coverage, exists_map_eq_ok_iff]
    constructor
    · rintro ⟨range, checked⟩
      obtain ⟨num, valued, -⟩ := exists_of_map_eq_ok (desc.checkValues_ok_iff.mp checked).1
      obtain ⟨decl, kind, named, idx, found, -⟩ := desc.variantValue_ok_iff.mp valued
      exact ⟨decl, kind, named, EnumDecl.exists_variantIndex_iff.mp ⟨idx, found⟩⟩
    · rintro ⟨decl, kind, named, mem⟩
      obtain ⟨idx, found⟩ := EnumDecl.exists_variantIndex_iff.mpr mem
      have valued := desc.variantValue_ok_iff.mpr ⟨decl, kind, named, idx, found, rfl⟩
      have below : idx < decl.variants.length := (List.findIdx?_eq_some_iff_getElem.mp found).1
      refine ⟨(idx, idx), desc.checkValues_ok_iff.mpr ⟨?_, ?_⟩⟩
      · rw [valueRange, valued]
        rfl
      · grind [domain]

theorem Pattern.coverage_ok_iff (pattern : Pattern) (words : pattern.HasWords) :
    (∃ coverage, pattern.coverage desc = .ok coverage) ↔
      ∀ part, pattern.Includes part → desc.Admits part := by
  match pattern with
  | .any alternatives =>
    have inner {part} (mem : part ∈ alternatives) := part.coverage_ok_iff
      fun low high inclusive has => words low high inclusive (.any mem has)
    rw [Pattern.coverage, coverageOfList_ok_iff]
    constructor
    · intro covered part has
      cases has with
      | self => trivial
      | any mem has => exact (inner mem).mp (covered _ mem) part has
    · exact fun valid part mem => (inner mem).mpr fun other has => valid other (.any mem has)
  | .literal _ | .range _ _ _ | .variant _ _ | .wildcard | .bind _ =>
    rw [Pattern.coverage_ok_iff_admits rfl words]
    refine ⟨fun valid part has => ?_, fun valid => valid _ (.self _)⟩
    cases has
    exact valid

/-- A match is accepted exactly if it has an arm, every part of its patterns is of values of the
scrutinee, and every value is taken. Upper bounds of ranges are any words, the least one included:
a range that ends before it is empty. -/
theorem MatchDescriptor.check_exact (desc : MatchDescriptor)
    (words : ∀ arm ∈ desc.arms, arm.pattern.HasWords) :
    desc.check = .ok () ↔ desc.arms ≠ [] ∧
      (∀ arm ∈ desc.arms, ∀ part, arm.pattern.Includes part → desc.Admits part) ∧
      desc.Exhausts := by
  have valid : (∃ coverage, coverageOfList desc (desc.arms.map MatchArm.pattern) = .ok coverage) ↔
      ∀ arm ∈ desc.arms, ∀ part, arm.pattern.Includes part → desc.Admits part := by
    rw [coverageOfList_ok_iff, forall_mem_map]
    exact forall₂_congr fun arm mem => arm.pattern.coverage_ok_iff (words arm mem)
  rw [check_ok_iff, ← valid]
  refine and_congr_right fun _ => ?_
  constructor
  · rintro ⟨coverage, covered, complete⟩
    exact ⟨⟨coverage, covered⟩, (exhausts_iff covered).mpr complete⟩
  · rintro ⟨⟨coverage, covered⟩, exhausts⟩
    exact ⟨coverage, covered, (exhausts_iff covered).mp exhausts⟩

/-- A match on a truth value, with alternatives inside an alternative. -/
def truthMatch : MatchDescriptor where
  kind := .bool
  arms := [⟨.any [.any [.literal 1, .range 0 1 false]], none⟩]

theorem truthMatch_exhausts : truthMatch.check = .ok () ∧ truthMatch.Exhausts := by
  refine ⟨rfl, ((truthMatch.check_exact ?_).mp rfl).2.2⟩
  intro arm mem low high inclusive has
  cases mem_singleton.mp mem
  obtain _ | ⟨mem, has⟩ := has
  cases mem_singleton.mp mem
  obtain _ | ⟨mem, has⟩ := has
  simp only [mem_cons, not_mem_nil, or_false] at mem
  rcases mem with rfl | rfl <;> cases has
  decide

end Coverage

end Backend65816
