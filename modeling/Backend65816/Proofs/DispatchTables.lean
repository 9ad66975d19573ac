import Mathlib.Data.List.Basic
import Backend65816.Proofs.Implementations

/-!
# Dispatch tables and declarations

Implementations are looked at one after the other, and a problem in one leaves its trait out. What
is known in between says enough about the implementations of the traits that are left: each of them
was accepted, its type has a tag, and the traits of one type are all near or all far. Tables list
the accepted implementations by tag.
-/

namespace Backend65816

open Option List

variable {unit : CompilationUnit} {table : DispatchTable} {limit : Int} {tag : Nat}
  {typeName : String}

variable {tags : Tags} {trait : TraitDecl} {progress : Dispatch.Progress}

namespace Tags

theorem mem_types_iff : typeName ∈ tags.types ↔ (tags.tag? typeName).isSome = true := by
  simp [tag?]

/-- Types are numbered in the order in which they got their tags. -/
theorem tag?_eq_some_iff (distinct : tags.types.Nodup) :
    tags.tag? typeName = some tag ↔ ∃ idx, tag = idx + 1 ∧ tags.types[idx]? = some typeName := by
  simp only [tag?, map_eq_some_iff, List.findIdx?_eq_some_iff_getElem]
  constructor
  · rintro ⟨idx, ⟨inside, found, -⟩, rfl⟩
    simp_all
  · rintro ⟨idx, rfl, found⟩
    obtain ⟨inside, found⟩ := List.getElem?_eq_some_iff.mp found
    refine ⟨idx, ⟨inside, by simpa using found, fun earlier before => ?_⟩, rfl⟩
    have different := (pairwise_iff_getElem.mp distinct) earlier idx (by omega) inside before
    simpa [← found] using different

theorem assign_ok {next : Tags} (assigned : tags.assign typeName = .ok (tag, next)) :
    next = tags ∧ typeName ∈ tags.types ∨
      next = { tags with types := tags.types ++ [typeName] } ∧ typeName ∉ tags.types ∧
        tags.types.length < tags.limit := by
  unfold assign at assigned
  split at assigned
  · next found =>
    cases assigned
    exact .inl ⟨rfl, mem_types_iff.mpr (isSome_of_eq_some found)⟩
  · split at assigned
    all_goals simp_all [mem_types_iff]

end Tags

/-- Keys can be read back: the names of traits have no slash. -/
def CompilationUnit.PlainTraits (unit : CompilationUnit) : Prop :=
  ∀ trait ∈ unit.traits, '/' ∉ trait.name.toList

instance (unit : CompilationUnit) : Decidable unit.PlainTraits :=
  inferInstanceAs (Decidable (∀ trait ∈ unit.traits, '/' ∉ trait.name.toList))

def CompilationUnit.Implemented (unit : CompilationUnit) (traitName typeName : String) : Prop :=
  ∃ impl ∈ unit.impls, impl.traitName = traitName ∧ impl.typeName = typeName

theorem CompilationUnit.findTrait?_mem {name : String}
    (found : unit.findTrait? name = some trait) : trait ∈ unit.traits ∧ trait.name = name :=
  ⟨mem_of_find?_eq_some found, by simpa using List.find?_some found⟩

namespace Dispatch

/-- Text up to a separator can be read back. -/
theorem append_inj_of_notMem {separator : Char} {front back front' back' : List Char}
    (plain : separator ∉ front) (plain' : separator ∉ front')
    (same : front ++ separator :: back = front' ++ separator :: back') :
    front = front' ∧ back = back' := by
  obtain ⟨more, front_eq, rest_eq⟩ | ⟨more, front_eq, rest_eq⟩ := append_eq_append_iff.mp same
  all_goals cases more <;> simp_all

theorem implKey_inj {traitName other otherType : String} (plain : '/' ∉ traitName.toList)
    (other_plain : '/' ∉ other.toList) (same : implKey traitName typeName = implKey other otherType)
    : traitName = other ∧ typeName = otherType := by
  have lists := congrArg String.toList same
  simp only [implKey, String.toList_append, append_assoc] at lists
  obtain ⟨traits_eq, types_eq⟩ := append_inj_of_notMem plain other_plain lists
  exact ⟨String.toList_inj.mp traits_eq, String.toList_inj.mp types_eq⟩

namespace Progress

variable {next : Progress} {impl : ImplDecl}

/-- The trait decides how the type is called, unless it was left out before. -/
def Decides (progress : Progress) (impl : ImplDecl) (decidedBy : Named String) : Prop :=
  impl.traitName ∈ progress.bad ∧ decidedBy = progress.decidedBy ∨
    decidedBy = progress.decidedBy.put impl.typeName impl.traitName ∧
      ∀ earlier, progress.decidedBy.get? impl.typeName = some earlier →
        progress.isFar earlier = progress.isFar impl.traitName

/-- What looking at an implementation leads to. -/
inductive Adds (unit : CompilationUnit) (progress : Progress) (impl : ImplDecl) :
    Progress → Prop where
  | unknown (absent : unit.findTrait? impl.traitName = none) (problems : List Diagnostic) :
      Adds unit progress impl { progress with problems }
  | rejected {trait : TraitDecl} (found : unit.findTrait? impl.traitName = some trait)
      (seen : List String) (listed : seen ⊆ implKey impl.traitName impl.typeName :: progress.seen)
      (kept : progress.seen ⊆ seen) (problem : Diagnostic) :
      Adds unit progress impl ({ progress with seen }.reject problem impl.traitName)
  | accepted {trait : TraitDecl} (found : unit.findTrait? impl.traitName = some trait)
      (checked : checkImpl trait impl = .ok ()) {tag : Nat} {tags : Tags}
      (assigned : progress.tags.assign impl.typeName = .ok (tag, tags)) (decidedBy : Named String)
      (decided : progress.Decides impl decidedBy) :
      Adds unit progress impl
        { progress with
          seen := implKey impl.traitName impl.typeName :: progress.seen, tags, decidedBy }

theorem tagType_ok (tagged : progress.tagType typeName = .ok next) :
    ∃ tag tags, progress.tags.assign typeName = .ok (tag, tags) ∧
      next = { progress with tags } := by
  unfold tagType at tagged
  grind

theorem addImpl_ok (added : progress.addImpl unit impl = .ok next) :
    Adds unit progress impl next := by
  unfold addImpl at added
  split at added
  · next absent =>
    cases added
    exact .unknown absent _
  · next trait found =>
    obtain ⟨-, named⟩ := CompilationUnit.findTrait?_mem found
    rw [named] at added
    dsimp only at added
    split at added
    · cases added
      exact .rejected found _ (subset_cons_self _ _) (.refl _) _
    split at added
    · cases added
      exact .rejected found _ (subset_cons_self _ _) (.refl _) _
    split at added
    · cases added
      exact .rejected found _ (.refl _) (subset_cons_self _ _) _
    next checked =>
    split at added
    · next bad =>
      obtain ⟨tag, tags, (assigned : progress.tags.assign _ = _), rfl⟩ := tagType_ok added
      exact .accepted found checked assigned _ (.inl ⟨by simpa using bad, rfl⟩)
    split at added
    · next earlier decided =>
      split at added
      · cases added
        exact .rejected found _ (.refl _) (subset_cons_self _ _) _
      · next agrees =>
        obtain ⟨tag, tags, (assigned : progress.tags.assign _ = _), rfl⟩ := tagType_ok added
        refine .accepted found checked assigned _ (.inr ⟨rfl, fun other other_eq => ?_⟩)
        cases decided.symm.trans other_eq
        exact not_not.mp agrees
    · next undecided =>
      obtain ⟨tag, tags, (assigned : progress.tags.assign _ = _), rfl⟩ := tagType_ok added
      exact .accepted found checked assigned _
        (.inr ⟨rfl, fun other other_eq => nomatch undecided.symm.trans other_eq⟩)

/-- An implementation was accepted, and its type is called as its trait is. -/
structure Settles (progress : Progress) (trait : TraitDecl) (impl : ImplDecl) : Prop where
  checked : checkImpl trait impl = .ok ()
  seen : implKey impl.traitName impl.typeName ∈ progress.seen
  tagged : impl.typeName ∈ progress.tags.types
  reach : ∃ earlier, progress.decidedBy.get? impl.typeName = some earlier ∧
    progress.isFar earlier = progress.isFar impl.traitName

/-- What is known after some of the implementations. -/
structure After (progress : Progress) (unit : CompilationUnit) (limit : Int)
    (done : List ImplDecl) : Prop where
  bound : progress.tags.limit = limit
  distinct : progress.tags.types.Nodup
  within : progress.tags.types.length ≤ limit.toNat
  seen : ∀ key ∈ progress.seen, ∃ impl ∈ done, (unit.findTrait? impl.traitName).isSome = true ∧
    key = implKey impl.traitName impl.typeName
  settled : ∀ impl ∈ done, ∀ trait, unit.findTrait? impl.traitName = some trait →
    impl.traitName ∉ progress.bad → progress.Settles trait impl

theorem Settles.accept {other : ImplDecl} (settles : progress.Settles trait other)
    (assigned : progress.tags.assign impl.typeName = .ok (tag, tags)) {decidedBy : Named String}
    (decided : progress.Decides impl decidedBy) (key : String) :
    Settles { progress with seen := key :: progress.seen, tags, decidedBy } trait other where
  checked := settles.checked
  seen := .tail _ settles.seen
  tagged := by
    obtain ⟨rfl, -⟩ | ⟨rfl, -, -⟩ := Tags.assign_ok assigned
    · exact settles.tagged
    · exact mem_append_left _ settles.tagged
  reach := by
    obtain ⟨earlier, earlier_eq, reach⟩ := settles.reach
    obtain ⟨-, rfl⟩ | ⟨rfl, agrees⟩ := decided
    · exact ⟨earlier, earlier_eq, reach⟩
    · by_cases same : other.typeName = impl.typeName
      · rw [same] at earlier_eq ⊢
        exact ⟨_, Named.get?_put_self _ _ _, (agrees earlier earlier_eq).symm.trans reach⟩
      · rw [Named.get?_put_of_ne _ _ same]
        exact ⟨earlier, earlier_eq, reach⟩

theorem After.add {done : List ImplDecl} (after : progress.After unit limit done)
    (adds : Adds unit progress impl next) : next.After unit limit (done ++ [impl]) := by
  have seen_before (key) (mem : key ∈ progress.seen) : ∃ other ∈ done ++ [impl],
      (unit.findTrait? other.traitName).isSome = true ∧
        key = implKey other.traitName other.typeName := by
    obtain ⟨other, other_mem, facts⟩ := after.seen key mem
    grind
  cases adds with
  | unknown absent problems =>
    refine ⟨after.bound, after.distinct, after.within, seen_before,
      forall_mem_append.mpr ⟨fun other mem trait found fine => ?_,
        forall_mem_singleton.mpr fun trait found => nomatch absent.symm.trans found⟩⟩
    exact { after.settled other mem trait found fine with }
  | rejected found seen listed kept prob =>
    refine ⟨after.bound, after.distinct, after.within, fun key mem => ?_,
      forall_mem_append.mpr ⟨fun other mem trait found fine => ?_,
        forall_mem_singleton.mpr fun trait found fine => absurd (.head _) fine⟩⟩
    · obtain rfl | old := mem_cons.mp (listed mem)
      all_goals simp_all
    · have settles := after.settled other mem trait found fun bad => fine (.tail _ bad)
      exact { settles with seen := kept settles.seen }
  | @accepted trait found checked tag tags assigned decidedBy decided =>
    have sound : tags.limit = limit ∧ tags.types.Nodup ∧ tags.types.length ≤ limit.toNat ∧
        impl.typeName ∈ tags.types := by
      obtain ⟨rfl, listed⟩ | ⟨rfl, new, room⟩ := Tags.assign_ok assigned
      · exact ⟨after.bound, after.distinct, after.within, listed⟩
      · refine ⟨after.bound, ?_, ?_, by simp⟩
        · refine nodup_append.mpr ⟨after.distinct, nodup_singleton _, ?_⟩
          grind
        · have := after.bound
          grind
    refine ⟨sound.1, sound.2.1, sound.2.2.1, forall_mem_cons.mpr
      ⟨⟨impl, by simp, isSome_of_eq_some found, rfl⟩, seen_before⟩,
      forall_mem_append.mpr ⟨fun other mem trait found fine =>
        (after.settled other mem trait found fine).accept assigned decided _,
        forall_mem_singleton.mpr fun trait' found' fine => ?_⟩⟩
    cases found.symm.trans found'
    obtain ⟨bad, -⟩ | ⟨rfl, -⟩ := decided
    · exact absurd bad fine
    · exact ⟨checked, (.head _), sound.2.2.2, _, Named.get?_put_self _ _ _, rfl⟩

theorem addTraits_keeps (traits : List TraitDecl) (start : Progress) :
    (traits.foldl addTrait start).tags = start.tags ∧
      (traits.foldl addTrait start).seen = start.seen := by
  refine List.foldlRecOn traits addTrait (motive := fun progress : Progress =>
    progress.tags = start.tags ∧ progress.seen = start.seen) ⟨rfl, rfl⟩
    fun progress kept trait _ => ?_
  unfold addTrait
  split <;> exact kept

/-- What the tables are built from. -/
theorem after_of_build
    (folded : unit.impls.foldlM (addImpl unit) (unit.traits.foldl addTrait { tags := { limit } }) =
      .ok progress) : progress.After unit limit unit.impls := by
  refine foldlM_induction (fun done reached => reached.After unit limit done)
    (fun after added => after.add (addImpl_ok added)) ?_ folded
  obtain ⟨tags_eq, seen_eq⟩ := addTraits_keeps unit.traits { tags := { limit } }
  refine ⟨?_, ?_, ?_, ?_, forall_mem_nil _⟩
  all_goals simp_all

variable (after : progress.After unit limit unit.impls)
include after

theorem After.settles (declared : trait ∈ unit.traits) (fine : trait.name ∉ progress.bad)
    (implemented : unit.Implemented trait.name typeName) :
    ∃ impl ∈ unit.impls, impl.traitName = trait.name ∧ impl.typeName = typeName ∧
      ∃ found, unit.findTrait? trait.name = some found ∧ progress.Settles found impl := by
  obtain ⟨impl, impl_mem, same, same_type⟩ := implemented
  obtain ⟨found, found_eq⟩ : ∃ found, unit.findTrait? trait.name = some found :=
    isSome_iff_exists.mp (List.find?_isSome.mpr ⟨trait, declared, by simp⟩)
  rw [← same] at found_eq fine
  exact ⟨impl, impl_mem, same, same_type, found, same ▸ found_eq,
    after.settled impl impl_mem found found_eq fine⟩

/-- Entries are told apart by the implementations of the unit. -/
theorem After.mem_seen_iff (plain : unit.PlainTraits) (declared : trait ∈ unit.traits)
    (fine : trait.name ∉ progress.bad) :
    implKey trait.name typeName ∈ progress.seen ↔ unit.Implemented trait.name typeName := by
  constructor
  · intro mem
    obtain ⟨impl, impl_mem, found, key_eq⟩ := after.seen _ mem
    obtain ⟨other, found⟩ := isSome_iff_exists.mp found
    obtain ⟨other_mem, other_eq⟩ := CompilationUnit.findTrait?_mem found
    obtain ⟨same, same_type⟩ :=
      implKey_inj (plain trait declared) (other_eq ▸ plain other other_mem) key_eq
    exact ⟨impl, impl_mem, same.symm, same_type.symm⟩
  · intro implemented
    obtain ⟨impl, -, same, rfl, _, -, settles⟩ := after.settles declared fine implemented
    exact same ▸ settles.seen

end Progress

/-- Fields lie one after the other from one place to another. -/
def Consecutive (start : Nat) (fields : List FieldSlot) (stop : Nat) : Prop :=
  match fields with
  | [] => start = stop
  | slot :: rest => slot.offset = start ∧ Consecutive (start + slot.width.bytes) rest stop

theorem placeFields_ok {structName : String} {offset size : Nat}
    {members : List FieldDecl} {fields : List FieldSlot}
    (placed : placeFields unit structName offset members = .ok (fields, size)) :
    Consecutive offset fields size ∧
      fields.map (fun slot => (slot.name, slot.type, some slot.width)) =
        members.map fun mem => (mem.name, mem.type, unit.width? mem.type) := by
  induction members generalizing offset fields with
  | nil =>
    cases placed
    exact ⟨rfl, rfl⟩
  | cons mem rest ih =>
    unfold placeFields at placed
    split at placed
    · cases placed
    · next width width_eq =>
      obtain ⟨⟨others, last⟩, rest_placed, placed⟩ := exists_of_bind_eq_ok placed
      cases placed
      obtain ⟨consecutive, same⟩ := ih rest_placed
      exact ⟨⟨rfl, consecutive⟩, by simp [same, width_eq]⟩

end Dispatch

/-- A layout has the fields of its struct, behind a tag if values of the type carry one. -/
structure Layout.Of (layout : Layout) (unit : CompilationUnit) (struct : StructDecl) : Prop where
  name : layout.typeName = struct.name
  fields : layout.fields.map (fun slot => (slot.name, slot.type, some slot.width)) =
    struct.fields.map fun member => (member.name, member.type, unit.width? member.type)
  consecutive : Dispatch.Consecutive (if layout.tagged then 1 else 0) layout.fields layout.size

/-- The dispatch information of a unit is that of its implementations. -/
structure DispatchPlan.Describes (plan : DispatchPlan) (unit : CompilationUnit) (limit : Int) :
    Prop where
  distinct : plan.tags.types.Nodup
  within : (plan.tags.types.length : Int) ≤ limit
  tags : ∀ typeName tag, plan.tags.tag? typeName = some tag ↔
    ∃ index, tag = index + 1 ∧ plan.tags.types[index]? = some typeName
  tables : ∀ table ∈ plan.tables, table.entries.length = plan.tags.types.length + 1 ∧
    table.entries[0]? = some trapSymbol ∧
    ∀ typeName tag, plan.tags.tag? typeName = some tag →
      (unit.Implemented table.traitName typeName →
        table.entries[tag]? = some (methodSymbol typeName table.traitName table.method)) ∧
      (¬unit.Implemented table.traitName typeName → table.entries[tag]? = some trapSymbol)
  tagged : ∀ table ∈ plan.tables, ∀ typeName, unit.Implemented table.traitName typeName →
    (plan.tags.tag? typeName).isSome = true
  reach : ∀ table ∈ plan.tables, ∀ other ∈ plan.tables, ∀ typeName tag,
    plan.tags.tag? typeName = some tag → table.entries[tag]? ≠ some trapSymbol →
      other.entries[tag]? ≠ some trapSymbol → table.far = other.far
  layouts : ∀ typeName layout, plan.layout? typeName = some layout →
    ∃ struct ∈ unit.structs, struct.name = typeName ∧ layout.Of unit struct ∧
      layout.tagged = (plan.tags.tag? typeName).isSome

namespace Dispatch

variable {plan : DispatchPlan} {problems : List Diagnostic}

theorem build_ok (built : build unit limit = .ok (plan, problems)) :
    ∃ progress, unit.impls.foldlM (Progress.addImpl unit)
        (unit.traits.foldl Progress.addTrait { tags := { limit } }) = .ok progress ∧
      plan.tags = progress.tags ∧ plan.tables = unit.traits.flatMap (traitTables progress) ∧
      ∀ typeName layout, plan.layout? typeName = some layout → ∃ struct ∈ unit.structs,
        struct.name = typeName ∧ layoutStruct unit progress.tags struct = .ok layout := by
  obtain ⟨progress, folded, built⟩ := exists_of_bind_eq_ok built
  cases built
  refine ⟨progress, folded, rfl, rfl, ?_⟩
  refine List.foldlRecOn unit.structs _ (motive := fun state : Named Layout × List Diagnostic =>
    ∀ typeName layout, state.1.get? typeName = some layout → ∃ struct ∈ unit.structs,
      struct.name = typeName ∧ layoutStruct unit progress.tags struct = .ok layout) nofun ?_
  intro state placed struct mem typeName layout found
  split at found
  · by_cases same : typeName = struct.name
    all_goals grind [Named.get?_put_self, Named.get?_put_of_ne]
  · exact placed typeName layout found

/-- A table is that of a method of a trait that is left, and lists its implementations. -/
structure Lists (progress : Progress) (unit : CompilationUnit) (table : DispatchTable)
    (trait : TraitDecl) (method : MethodDecl) : Prop where
  declared : trait ∈ unit.traits
  listed : method ∈ trait.methods
  fine : trait.name ∉ progress.bad
  traitName : table.traitName = trait.name
  methodName : table.method = method.name
  far : table.far = progress.isFar trait.name
  length : table.entries.length = progress.tags.types.length + 1
  first : table.entries[0]? = some trapSymbol
  entry : ∀ {index typeName}, progress.tags.types[index]? = some typeName →
    (unit.Implemented trait.name typeName →
      table.entries[index + 1]? = some (methodSymbol typeName trait.name method.name)) ∧
    (¬unit.Implemented trait.name typeName → table.entries[index + 1]? = some trapSymbol)

/-- An entry that can be called stands for an implementation. -/
theorem Lists.implemented {method : MethodDecl} (list : Lists progress unit table trait method)
    {entry : String} (at_tag : table.entries[tag]? = some entry) (used : entry ≠ trapSymbol) :
    ∃ idx typeName, tag = idx + 1 ∧ progress.tags.types[idx]? = some typeName ∧
      unit.Implemented trait.name typeName ∧
      entry = methodSymbol typeName trait.name method.name := by
  cases tag with
  | zero => exact absurd (Option.some.inj (at_tag.symm.trans list.first)) used
  | succ idx =>
    have inside := (List.getElem?_eq_some_iff.mp at_tag).1
    rw [list.length] at inside
    have at_index := List.getElem?_eq_getElem (Nat.lt_of_succ_lt_succ inside)
    obtain ⟨implemented, otherwise⟩ := list.entry at_index
    by_cases exists_impl : unit.Implemented trait.name progress.tags.types[idx]
    all_goals grind

theorem exists_lists (after : progress.After unit limit unit.impls) (plain : unit.PlainTraits)
    (mem : table ∈ unit.traits.flatMap (traitTables progress)) :
    ∃ trait method, Lists progress unit table trait method := by
  obtain ⟨trait, declared, mem⟩ := mem_flatMap.mp mem
  unfold traitTables at mem
  split at mem
  · cases mem
  · next fine =>
    obtain ⟨method, listed, rfl⟩ := mem_map.mp mem
    have fine : trait.name ∉ progress.bad := by simpa using fine
    refine ⟨trait, method, declared, listed, fine, rfl, rfl, rfl, by simp, by simp,
      fun at_index => ?_⟩
    simp +contextual [at_index, tableEntry, after.mem_seen_iff plain declared fine]

/-- Tables, tags and layouts match the declared implementations. -/
theorem build_describes (plain : unit.PlainTraits) (nonneg : 0 ≤ limit)
    (built : build unit limit = .ok (plan, problems)) : plan.Describes unit limit := by
  obtain ⟨progress, folded, tags_eq, tables_eq, layouts⟩ := build_ok built
  have after := Progress.after_of_build folded
  have lists (table) (mem : table ∈ plan.tables) := exists_lists after plain (tables_eq ▸ mem)
  have numbered {typeName : String} {tag : Nat} : plan.tags.tag? typeName = some tag ↔
        ∃ index, tag = index + 1 ∧ plan.tags.types[index]? = some typeName := by
    rw [tags_eq]
    exact Tags.tag?_eq_some_iff after.distinct
  have within : plan.tags.types.length ≤ limit.toNat := tags_eq ▸ after.within
  refine ⟨tags_eq ▸ after.distinct, by omega, fun _ _ => numbered, ?_, ?_, ?_, ?_⟩
  · intro table mem
    obtain ⟨trait, method, list⟩ := lists table mem
    refine ⟨tags_eq ▸ list.length, list.first, fun typeName tag tagged => ?_⟩
    obtain ⟨index, rfl, at_index⟩ := numbered.mp tagged
    rw [list.traitName, list.methodName]
    exact list.entry (tags_eq ▸ at_index)
  · intro table mem typeName implemented
    obtain ⟨trait, method, list⟩ := lists table mem
    rw [list.traitName] at implemented
    obtain ⟨impl, -, -, rfl, _, -, settles⟩ := after.settles list.declared list.fine implemented
    exact tags_eq ▸ Tags.mem_types_iff.mp settles.tagged
  · intro table mem other other_mem typeName tag tagged used other_used
    obtain ⟨index, rfl, at_index⟩ := numbered.mp tagged
    rw [tags_eq] at at_index
    -- both traits have accepted implementations for the type, which decided how it is called
    have settled {table : DispatchTable} (mem : table ∈ plan.tables)
        (used : table.entries[index + 1]? ≠ some trapSymbol) : ∃ earlier,
        progress.decidedBy.get? typeName = some earlier ∧ table.far = progress.isFar earlier := by
      obtain ⟨trait, method, list⟩ := lists table mem
      obtain ⟨impl, -, same, rfl, _, -, settles⟩ := after.settles list.declared list.fine
        (not_not.mp fun absent => used ((list.entry at_index).2 absent))
      obtain ⟨earlier, earlier_eq, reach⟩ := settles.reach
      exact ⟨earlier, earlier_eq, by rw [list.far, ← same, reach]⟩
    obtain ⟨earlier, earlier_eq, far_eq⟩ := settled mem used
    obtain ⟨other, other_eq, other_far_eq⟩ := settled other_mem other_used
    cases earlier_eq.symm.trans other_eq
    rw [far_eq, other_far_eq]
  · intro typeName layout found
    obtain ⟨struct, declared, rfl, made⟩ := layouts typeName layout found
    obtain ⟨⟨fields, size⟩, placed, made⟩ := exists_of_bind_eq_ok made
    cases made
    obtain ⟨consecutive, same⟩ := placeFields_ok placed
    exact ⟨struct, declared, rfl, ⟨rfl, same, consecutive⟩, tags_eq ▸ rfl⟩

/-- The second implementation leaves its trait out, after the first gave its type a tag. -/
def scene : CompilationUnit where
  structs := [{ name := "Sprite", fields := [⟨"x", .u16⟩, ⟨"y", .u8⟩] },
    { name := "Ship", fields := [⟨"speed", .u8⟩] }, { name := "Wall", fields := [⟨"x", .u16⟩] }]
  traits := [{ name := "Draw", methods := [{ name := "draw" }] },
    { name := "Hide", methods := [{ name := "hide" }] }]
  impls := [
    { traitName := "Hide"
      typeName := "Ship"
      methods := [{ name := "hide", params := [⟨"self", .pointer "Ship", .register "y"⟩] }] },
    { traitName := "Hide", typeName := "Rock" },
    { traitName := "Draw"
      typeName := "Sprite"
      methods := [{ name := "draw", params := [⟨"self", .pointer "Sprite", .register "y"⟩] }] }]

/-- Only the trait of which no implementation is left out has a table, and the type without an
implementation has no tag. -/
theorem scene_describes : ∃ plan problems, build scene 2 = .ok (plan, problems) ∧
      plan.tags.types = ["Ship", "Sprite"] ∧
      plan.tables.map DispatchTable.entries = [[trapSymbol, trapSymbol, "Sprite__Draw__draw"]] ∧
      plan.layouts.map (fun entry => (entry.1, entry.2.tagged, entry.2.size)) =
        [("Sprite", true, 4), ("Ship", true, 2), ("Wall", false, 2)] ∧
      plan.Describes scene 2 :=
  ⟨_, _, rfl, rfl, rfl, rfl, build_describes (by decide) (by decide) rfl⟩

/-- An entry that can be called is a method of an implementation for the type with its tag, and has
the declaration of the method in the trait. -/
def CallsDeclared (plan : DispatchPlan) (unit : CompilationUnit) (table : DispatchTable) : Prop :=
  ∃ trait ∈ unit.traits, ∃ method ∈ trait.methods, table.traitName = trait.name ∧
    table.method = method.name ∧ ∀ tag entry, table.entries[tag]? = some entry →
      entry ≠ trapSymbol → ∃ impl ∈ unit.impls, ∃ given ∈ impl.methods,
        impl.traitName = trait.name ∧ plan.tags.tag? impl.typeName = some tag ∧
        entry = methodSymbol impl.typeName trait.name given.name ∧ Implements given method

/-- Every entry that can be called is declared, unless a trait is hidden by an earlier one. -/
theorem build_callsDeclared (plain : unit.PlainTraits)
    (visible : ∀ trait ∈ unit.traits, unit.findTrait? trait.name = some trait)
    (built : build unit limit = .ok (plan, problems)) :
    ∀ table ∈ plan.tables, CallsDeclared plan unit table := by
  obtain ⟨progress, folded, tags_eq, tables_eq, -⟩ := build_ok built
  have after := Progress.after_of_build folded
  intro table mem
  obtain ⟨trait, method, list⟩ := exists_lists after plain (tables_eq ▸ mem)
  refine ⟨trait, list.declared, method, list.listed, list.traitName, list.methodName, ?_⟩
  intro tag entry at_tag used
  obtain ⟨index, typeName, rfl, at_index, implemented, entry_eq⟩ := list.implemented at_tag used
  obtain ⟨impl, impl_mem, same, rfl, found, found_eq, settles⟩ :=
    after.settles list.declared list.fine implemented
  cases found_eq.symm.trans (visible trait list.declared)
  obtain ⟨given, given_eq, implements⟩ := checkImpl_ok settles.checked list.listed
  refine ⟨impl, impl_mem, given, mem_reverse.mp (mem_of_find?_eq_some given_eq), same,
    tags_eq ▸ (Tags.tag?_eq_some_iff after.distinct).mpr ⟨index, rfl, at_index⟩, ?_, implements⟩
  rw [implements.name, entry_eq]

theorem scene_callsDeclared : ∃ plan problems, build scene 2 = .ok (plan, problems) ∧
      plan.tables.map DispatchTable.entries = [[trapSymbol, trapSymbol, "Sprite__Draw__draw"]] ∧
      ∀ table ∈ plan.tables, CallsDeclared plan scene table := by
  obtain ⟨plan, problems, built, entries⟩ : ∃ plan problems, build scene 2 = .ok (plan, problems) ∧
      plan.tables.map DispatchTable.entries = [[trapSymbol, trapSymbol, "Sprite__Draw__draw"]] :=
    ⟨_, _, rfl, rfl⟩
  exact ⟨plan, problems, built, entries, build_callsDeclared (by decide) (by decide) built⟩

/-- Two traits of one name: implementations are checked against the first. -/
def hiddenTrait : CompilationUnit where
  structs := [{ name := "Sprite", fields := [⟨"x", .u16⟩] }]
  traits := [{ name := "Draw", methods := [{ name := "draw" }] },
    { name := "Draw", methods := [{ name := "hide" }] }]
  impls := [
    { traitName := "Draw"
      typeName := "Sprite"
      methods := [{ name := "draw", params := [⟨"self", .pointer "Sprite", .register "y"⟩] }] }]

/-- The table of the second lists a method that there is not. -/
theorem hiddenTrait_calls_undeclared : ∃ plan, build hiddenTrait 255 = .ok (plan, []) ∧
      ∃ table ∈ plan.tables, table.entries[1]? = some "Sprite__Draw__hide" ∧
        ∀ entry ∈ hiddenTrait.symbols, entry.1 ≠ "Sprite__Draw__hide" := by
  have sorted : Diagnostic.sorted [] = [] := mergeSort_nil
  rw [← sorted]
  exact ⟨_, rfl, _, by right; left, rfl, by decide⟩

end Dispatch

end Backend65816
