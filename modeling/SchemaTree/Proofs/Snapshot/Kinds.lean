import Mathlib.Tactic.IntervalCases
import SchemaTree.Proofs.Pool.Reference
import SchemaTree.Proofs.Snapshot.Messages
import SchemaTree.Schema.FieldLine

/-!
# Kinds of fields and what belongs to them

The default of a field is a value of its kind, whether it was declared or is the zero of its type, and that
zero is the default of a new field of the kind. Which fields name a type, may be packed and have a default
clause follows from the kind alone.
-/

namespace SchemaTree
namespace Schema

/-! ### What a kind stands for -/

/-- The form of a default, without its value. -/
inductive DefaultValue.Variant
  | absent | bool | int32 | int64 | uint32 | uint64 | float | double | string | bytes | enum
deriving DecidableEq, Repr

def DefaultValue.variant : DefaultValue → Variant
  | absent => .absent
  | bool _ => .bool
  | int32 _ => .int32
  | int64 _ => .int64
  | uint32 _ => .uint32
  | uint64 _ => .uint64
  | float _ => .float
  | double _ => .double
  | string _ => .string
  | bytes _ => .bytes
  | enum .. => .enum

namespace Kind

/-- The form of the defaults of a kind: that of new fields, but for enums, whose new fields have none. -/
def variant (kind : Kind) : DefaultValue.Variant :=
  if kind = enum then .enum else (Field.new "" 0 kind).defaultValue.variant

def isScalar : Kind → Bool
  | enum | message | unknown => false
  | _ => true

/-- Whether a kind is numeric, a flag or an enum. -/
def isPackable : Kind → Bool
  | string | bytes | message | unknown => false
  | _ => true

theorem code_of_enum {code : Int} (h : ofCode code = enum) : code = Descriptor.enumCode := by
  unfold ofCode at h
  split at h
  all_goals first | rfl | cases h

theorem ofCode_eq_enum {code : Int} : ofCode code = enum ↔ code = Descriptor.enumCode :=
  ⟨code_of_enum, fun h => by rw [h]; rfl⟩

theorem code_of_message {code : Int} (h : ofCode code = message) :
    code = Descriptor.messageCode := by
  unfold ofCode at h
  split at h
  all_goals first | rfl | cases h

theorem range_of_scalarCode {code : Int} (h : Descriptor.scalarCode? code = some code) :
    1 ≤ code ∧ code ≤ 18 := by
  unfold Descriptor.scalarCode? at h
  split at h
  · cases h
  · split at h
    · assumption
    · cases h
      decide

theorem isPackable_form {code : Int} (h : Descriptor.scalarCode? code = some code) :
    (Descriptor.Form.ofCode code).isPackable = (ofCode code).isPackable := by
  obtain ⟨hlow, hhigh⟩ := range_of_scalarCode h
  interval_cases code <;> rfl

theorem isScalar_of_scalarCode {code : Int} (h : Descriptor.scalarCode? code = some code) :
    (ofCode code).isScalar = true := by
  obtain ⟨hlow, hhigh⟩ := range_of_scalarCode h
  interval_cases code
  all_goals first | rfl | cases h

theorem variant_of_isScalar {kind : Kind} (name : String) (number : UInt32) (h : kind.isScalar = true) :
    kind.variant = (Field.new name number kind).defaultValue.variant := by
  cases kind <;> first | rfl | cases h

theorem variant_eq_absent (kind : Kind) :
    kind.variant = .absent ↔ kind = message ∨ kind = unknown := by
  cases kind <;> decide

theorem variant_eq_string (kind : Kind) : kind.variant = .string ↔ kind = string := by
  cases kind <;> decide

theorem variant_eq_enum (kind : Kind) : kind.variant = .enum ↔ kind = enum := by
  cases kind <;> decide

end Kind

theorem DefaultValue.eq_absent {value : DefaultValue} (h : value.variant = .absent) :
    value = .absent := by
  cases value with
  | absent => rfl
  | _ => cases h

theorem DefaultValue.clause?_eq_none (value : DefaultValue) :
    value.clause? = none ↔ value.variant = .absent := by
  cases value <;> simp [clause?, isAbsent, variant]

theorem Field.defaultClause?_eq_none {y : Field} (h : y.defaultValue.variant = y.kind.variant) :
    y.defaultClause? = none ↔ y.kind = .message ∨ y.kind = .unknown := by
  unfold defaultClause?
  split
  · rename_i hkind
    simp [hkind]
  · rename_i hkind
    simp [hkind]
  · rw [DefaultValue.clause?_eq_none, h, Kind.variant_eq_absent]

end Schema

/-! ### Defaults -/

namespace Snapshot
open Descriptor
open Pool (Declaration Scalar Typed)
open Schema (DefaultValue Dialect Kind)

/-- A field has the kind of its type code. -/
theorem kind_eq_ofCode (x : Field) : kind x = Kind.ofCode x.typeCode := rfl

/-- A number that is read from a text and bounded gives a default of the form that `wrap` makes. -/
theorem variant_of_bounded {α : Type} {number : Option α} {bound : α → Option Int} {wrap : Int → Scalar}
    {variant : DefaultValue.Variant} {v : Scalar} (hwrap : ∀ n, (scalarDefault (wrap n)).variant = variant)
    (h : (do let n ← bound (← number); some (wrap n)) = some v) :
    (scalarDefault v).variant = variant := by
  obtain ⟨_, _, h⟩ := Option.bind_eq_some_iff.mp h
  obtain ⟨n, _, h⟩ := Option.bind_eq_some_iff.mp h
  cases Option.some.inj h
  exact hwrap n

theorem variant_of_map {α : Type} {read : Option α} {wrap : α → Scalar} {variant : DefaultValue.Variant}
    {v : Scalar} (hwrap : ∀ a, (scalarDefault (wrap a)).variant = variant) (h : read.map wrap = some v) :
    (scalarDefault v).variant = variant := by
  obtain ⟨a, _, rfl⟩ := Option.map_eq_some_iff.mp h
  exact hwrap a

theorem variant_of_flag {text : String} {v : Scalar}
    (h : (if text = "true" then some (.bool true) else if text = "false" then some (.bool false)
      else none) = some v) : (scalarDefault v).variant = .bool := by
  split at h
  · cases h
    rfl
  · split at h
    · cases h
      rfl
    · cases h

theorem scalarDefault?_variant {code : Int} {text : String} {v : Scalar}
    (h : Pool.scalarDefault? code text = some v) :
    (scalarDefault v).variant = (Kind.ofCode code).variant := by
  unfold Pool.scalarDefault? at h
  split at h
  all_goals first
    | exact variant_of_map (fun _ => rfl) h
    | exact variant_of_bounded (fun _ => rfl) h
    | exact variant_of_flag h
    | (cases h; rfl)
    | cases h

/-- The zero of a type is shown as the default of a new field of its kind; types without a zero have kinds
without such a default. -/
theorem zero?_eq_new (name : String) (number : UInt32) (code : Int) :
    (Scalar.zero? code).elim .absent scalarDefault =
      (Schema.Field.new name number (Kind.ofCode code)).defaultValue := by
  unfold Scalar.zero?
  split
  case h_16 =>
    -- Enums and messages are among the codes that are left.
    unfold Kind.ofCode
    split
    all_goals first
      | contradiction
      | rfl
  all_goals rfl

theorem variant_of_enumDefault {ds : List Declaration} {file fullName : String} {x : Field} {number : Int}
    {value : DefaultValue} (h : enumDefault ds file fullName x number = .ok value) :
    value.variant = .enum := by
  unfold enumDefault at h
  split at h
  · cases h
  · split at h
    · cases h
      rfl
    · cases h

theorem default_variant {ds : List Declaration} {file fullName : String} {x : Field}
    {value : DefaultValue} (h : default ds file fullName x = .ok value) :
    value.variant = (kind x).variant := by
  rw [kind_eq_ofCode]
  by_cases hcode : x.typeCode = enumCode
  · obtain ⟨number, hnumber⟩ := default_enum ds file fullName hcode
    rw [hnumber] at h
    rw [variant_of_enumDefault h, hcode]
    rfl
  · rw [default_scalar hcode] at h
    cases h
    generalize hdeclared : (if x.label = .repeated then none
      else x.defaultText.bind (Pool.scalarDefault? x.typeCode)) = declared
    cases declared with
    | none =>
      rw [Option.none_or, zero?_eq_new "" 0, Kind.variant, if_neg (mt Kind.code_of_enum hcode)]
    | some v =>
      split at hdeclared
      · cases hdeclared
      · obtain ⟨text, _, hread⟩ := Option.bind_eq_some_iff.mp hdeclared
        exact scalarDefault?_variant hread

/-! ### Fields -/

/-- What belongs to the kind of a field that is kept for a declared one. -/
structure WellKinded (x : Field) (y : Schema.Field) : Prop where
  scalar : y.kind.isScalar = true →
    y.defaultValue.variant = (Schema.Field.new y.name y.number y.kind).defaultValue.variant
  enum : y.kind = .enum → y.defaultValue.variant = .enum
  absent : y.kind = .message ∨ y.kind = .unknown → y.defaultValue = .absent
  zero : y.kind.isScalar = true → x.label = .repeated ∨ x.defaultText = none →
    y.defaultValue = (Schema.Field.new y.name y.number y.kind).defaultValue
  named : y.typeName.isSome ↔ y.kind = .enum ∨ y.kind = .message
  packable : y.isPacked = true → y.kind.isPackable = true
  clause : y.defaultClause? = none ↔ y.kind = .message ∨ y.kind = .unknown

/-- Of the declared field only the label and the default count. -/
theorem WellKinded.of_same {x x' : Field} {y : Schema.Field} (h : WellKinded x y)
    (hlabel : x.label = x'.label) (htext : x.defaultText = x'.defaultText) : WellKinded x' y :=
  ⟨h.scalar, h.enum, h.absent, by rw [← hlabel, ← htext]; exact h.zero, h.named, h.packable, h.clause⟩

theorem typeName?_isSome (x : Field) :
    (typeName? x).isSome ↔ Kind.ofCode x.typeCode = .enum ∨ Kind.ofCode x.typeCode = .message := by
  unfold typeName?
  constructor
  · intro h
    split at h
    · rename_i hcode
      rcases hcode with hcode | hcode
      · exact .inr (by rw [hcode]; rfl)
      · exact .inl (by rw [hcode]; rfl)
    · cases h
  · rintro (h | h)
    · rw [if_pos (.inr (Kind.code_of_enum h))]
      rfl
    · rw [if_pos (.inl (Kind.code_of_message h))]
      rfl

theorem isPackable_typed {ds : List Declaration} {x : Field} (h : Typed ds x) :
    (Form.ofCode x.typeCode).isPackable = (Kind.ofCode x.typeCode).isPackable := by
  cases h with
  | scalar _ hcode => exact Kind.isPackable_form hcode
  | enum _ hcode _ =>
    rw [hcode]
    rfl
  | message hcode _ => rcases hcode with hcode | hcode <;> (rw [hcode]; rfl)

theorem unknown_iff_group {ds : List Declaration} {x : Field} (h : Typed ds x) :
    Kind.ofCode x.typeCode = .unknown ↔ x.typeCode = groupCode := by
  refine ⟨fun hkind => ?_, fun hcode => by rw [hcode]; rfl⟩
  cases h with
  | scalar _ hcode =>
    have hscalar := Kind.isScalar_of_scalarCode hcode
    rw [hkind] at hscalar
    cases hscalar
  | enum _ hcode _ =>
    rw [hcode] at hkind
    cases hkind
  | message hcode _ =>
    refine hcode.resolve_left fun hcode => ?_
    rw [hcode] at hkind
    cases hkind

/-- Only fields with the code of enums are shown as enums. -/
theorem enumCode_of_field {ds : List Declaration} {file scope : String} {dialect : Dialect} {x : Field}
    {y : Schema.Field} (h : field ds file scope dialect x = .ok y) (hkind : y.kind = .enum) :
    x.typeCode = enumCode := by
  obtain ⟨_, _, h⟩ := bind_eq_ok h
  cases h
  exact Kind.code_of_enum hkind

theorem field_wellKinded {ds : List Declaration} {file scope : String} {dialect : Dialect} {x : Field}
    {y : Schema.Field} (hx : Typed ds x) (h : field ds file scope dialect x = .ok y) :
    WellKinded x y := by
  obtain ⟨value, hvalue, h⟩ := bind_eq_ok h
  cases h
  have hvariant := default_variant hvalue
  refine ⟨?scalar, ?enum, ?absent, ?zero, typeName?_isSome x, ?packable,
    Schema.Field.defaultClause?_eq_none hvariant⟩
  case scalar =>
    intro hscalar
    exact hvariant.trans (Kind.variant_of_isScalar _ _ hscalar)
  case enum =>
    intro henum
    exact hvariant.trans ((Kind.variant_eq_enum _).mpr henum)
  case absent =>
    intro hnone
    exact DefaultValue.eq_absent (hvariant.trans ((Kind.variant_eq_absent _).mpr hnone))
  case zero =>
    intro hscalar hundeclared
    have hcode : x.typeCode ≠ enumCode := by
      intro hcode
      rw [show kind x = .enum by rw [kind_eq_ofCode, hcode]; rfl] at hscalar
      cases hscalar
    have hnone : (if x.label = .repeated then none
        else x.defaultText.bind (Pool.scalarDefault? x.typeCode)) = none := by
      rcases hundeclared with hlabel | htext
      · rw [if_pos hlabel]
      · rw [htext, Option.bind_none, ite_self]
    rw [default_scalar hcode, hnone, Option.none_or] at hvalue
    cases hvalue
    exact zero?_eq_new _ _ x.typeCode
  case packable =>
    intro hpacked
    simp only [isPacked, Options.Slot.isPacked, Options.Slot.form, Bool.and_eq_true] at hpacked
    exact isPackable_typed hx ▸ hpacked.1.2

end Snapshot
end SchemaTree
