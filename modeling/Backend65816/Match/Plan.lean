import Backend65816.Match.Descriptor
import Backend65816.Settings

/-!
# Strategies for matches

A match whose values lie densely in a span becomes a table: of constants if every outcome that can
be reached is one, else of code. Every other match tests its arms in order. The first arm that
contains a value owns it under every strategy.
-/

namespace Backend65816

/-- How a match is carried out. -/
inductive Strategy where
  | branchChain
  | jumpTable
  | lookupTable
deriving DecidableEq, Repr, Inhabited

def Strategy.text : Strategy → String
  | branchChain => "branch-chain"
  | jumpTable => "jump-table"
  | lookupTable => "lookup-table"

/-- When a match becomes a table. -/
structure DensityOptions where
  denseRatio : Float
  minValues : Int
  maxSpan : Int

def Settings.density (settings : Settings) : DensityOptions :=
  { denseRatio := settings.denseRatio
    minValues := settings.minTableValues
    maxSpan := settings.maxTableSpan }

/-- A chosen strategy. -/
structure MatchPlan where
  strategy : Strategy := .branchChain
  first : Int := 0
  owners : List Nat := []
  fallback : Option Nat := none
  rangeCheck : Bool := false
  values : List Int := []
deriving DecidableEq, Repr, Inhabited

def MatchPlan.fallbackNumber (plan : MatchPlan) : Int :=
  match plan.fallback with
  | some arm => arm
  | none => -1

def MatchPlan.text (plan : MatchPlan) : String :=
  match plan.strategy with
  | .branchChain => plan.strategy.text
  | .jumpTable | .lookupTable =>
    plan.strategy.text ++ "[" ++ toString plan.first ++ ".." ++
      toString (plan.first + plan.owners.length - 1) ++ "] default=" ++
      toString plan.fallbackNumber

namespace MatchDescriptor

def fallback? (descriptor : MatchDescriptor) : Option Nat :=
  descriptor.arms.findIdx? fun arm => arm.pattern.isCatchAll

def listedArms (descriptor : MatchDescriptor) : List MatchArm :=
  match descriptor.fallback? with
  | some index => descriptor.arms.take index
  | none => descriptor.arms

def listedRanges? (descriptor : MatchDescriptor) (maxSpan : Int) : Option (List (Int × Int)) :=
  descriptor.listedArms.mapM fun arm =>
    match descriptor.valueRange arm.pattern with
    | .ok (low, high) => if high - low + 1 > maxSpan then none else some (low, high)
    | .error _ => none

end MatchDescriptor

def ownerOf? (ranges : List (Int × Int)) (value : Int) : Option Nat :=
  ranges.findIdx? fun range => range.1 ≤ value && value ≤ range.2

def hull? : List (Int × Int) → Option (Int × Int)
  | [] => none
  | first :: rest =>
    some (rest.foldl (fun bounds range => (min bounds.1 range.1, max bounds.2 range.2)) first)

def spanValues (first : Int) (length : Nat) : List Int :=
  (List.range length).map fun (offset : Nat) => first + (offset : Int)

def DensityOptions.admits (options : DensityOptions) (count span : Nat) : Bool :=
  !((count : Int) < options.minValues) &&
    !(Float.ofNat count / Float.ofNat span < options.denseRatio)

namespace MatchDescriptor

def tablePlan (descriptor : MatchDescriptor) (ranges : List (Int × Int)) (low high : Int) :
    MatchPlan :=
  let (least, greatest) := descriptor.domain
  let fallback := descriptor.fallback?
  let rangeCheck := decide (low > least) || decide (high < greatest)
  let slots := spanValues low (high - low + 1).toNat
  let owners := slots.map fun value => ((ownerOf? ranges value).or fallback).getD 0
  let reached := owners ++ (if rangeCheck then fallback.toList else [])
  let const? (arm : Nat) : Option Int := (descriptor.arms[arm]?).bind MatchArm.const
  let base : MatchPlan :=
    { strategy := .jumpTable, first := low, owners, fallback, rangeCheck }
  if reached.all fun arm => (const? arm).isSome then
    { base with strategy := .lookupTable, values := owners.filterMap const? }
  else base

def plan (descriptor : MatchDescriptor) (options : DensityOptions) : MatchPlan :=
  if descriptor.arms.any fun arm => arm.pattern.isAny then {}
  else
    let chain : MatchPlan := { fallback := descriptor.fallback? }
    match descriptor.listedRanges? options.maxSpan with
    | none => chain
    | some ranges =>
      match hull? ranges with
      | none => chain
      | some (low, high) =>
        let span := high - low + 1
        if span > options.maxSpan then chain
        else
          let covered := (spanValues low span.toNat).countP fun value =>
            (ownerOf? ranges value).isSome
          if options.admits covered span.toNat then descriptor.tablePlan ranges low high
          else chain

end MatchDescriptor

end Backend65816
