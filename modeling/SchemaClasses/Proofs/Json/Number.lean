import SchemaClasses.Json.Number
import SchemaClasses.Proofs.Text.Plain

set_option autoImplicit false

namespace SchemaClasses

def Text.isNumberSign (c : Char) : Bool := c.isDigit || c == '-' || c == '+' || c == '.' || c == 'e'

namespace Decimal

open Text

theorem isNumberSign_of_mem_ofNat {n : Nat} : ∀ c ∈ ofNat n, isNumberSign c = true := by
  intro c member
  simp [isNumberSign, isDigit_of_mem_ofNat member]

theorem isNumberSign_of_mem_zeros {n : Nat} : ∀ c ∈ zeros n, isNumberSign c = true := by
  intro c member
  rw [List.eq_of_mem_replicate member]
  rfl

theorem isNumberSign_of_mem_signed {n : Int} : ∀ c ∈ signed n, isNumberSign c = true := by
  unfold signed
  split <;> exact List.forall_mem_cons.mpr ⟨rfl, isNumberSign_of_mem_ofNat⟩

section

variable {digits : Text} (signs : ∀ c ∈ digits, isNumberSign c = true)

include signs

theorem isNumberSign_of_mem_withPoint {whole : Int} :
    ∀ c ∈ withPoint digits whole, isNumberSign c = true := by
  have point : ("0.".toList ++ ".0".toList).all isNumberSign = true := by decide
  obtain ⟨leading, trailing⟩ := List.forall_mem_append.mp (List.all_eq_true.mp point)
  unfold withPoint
  split
  · exact List.forall_mem_append.mpr
      ⟨List.forall_mem_append.mpr ⟨leading, isNumberSign_of_mem_zeros⟩, signs⟩
  · split
    · exact List.forall_mem_append.mpr
        ⟨List.forall_mem_append.mpr ⟨signs, isNumberSign_of_mem_zeros⟩, trailing⟩
    · exact List.forall_mem_append.mpr ⟨fun c member => signs c (List.mem_of_mem_take member),
        List.forall_mem_cons.mpr ⟨rfl, fun c member => signs c (List.mem_of_mem_drop member)⟩⟩

theorem isNumberSign_of_mem_scientific {exponent : Int} :
    ∀ c ∈ scientific digits exponent, isNumberSign c = true := by
  have behind : ∀ c ∈ 'e' :: signed exponent, isNumberSign c = true :=
    List.forall_mem_cons.mpr ⟨rfl, isNumberSign_of_mem_signed⟩
  unfold scientific
  split
  · exact nofun
  · obtain ⟨first, -⟩ := List.forall_mem_cons.mp signs
    exact List.forall_mem_cons.mpr ⟨first, behind⟩
  · obtain ⟨first, more⟩ := List.forall_mem_cons.mp signs
    exact List.forall_mem_cons.mpr ⟨first, List.forall_mem_cons.mpr
      ⟨rfl, List.forall_mem_append.mpr ⟨more, behind⟩⟩⟩

end

theorem isNumberSign_of_mem_render {positional : Positional} {d : Expansion} :
    ∀ c ∈ d.render positional, isNumberSign c = true := by
  rw [Expansion.render]
  split
  · exact isNumberSign_of_mem_withPoint isNumberSign_of_mem_ofNat
  · exact isNumberSign_of_mem_scientific isNumberSign_of_mem_ofNat

theorem withPoint_ne_nil (digits : Text) (whole : Int) : withPoint digits whole ≠ [] := by
  unfold withPoint
  split
  · simp
  · split <;> simp

theorem scientific_ne_nil {digits : Text} (nonempty : digits ≠ []) (exponent : Int) :
    scientific digits exponent ≠ [] := by
  unfold scientific
  split <;> simp_all

theorem render_ne_nil (positional : Positional) (d : Expansion) : d.render positional ≠ [] := by
  rw [Expansion.render]
  split
  · exact withPoint_ne_nil _ _
  · exact scientific_ne_nil Nat.toDigits_ne_nil _

end Decimal

namespace Json.Number

open Text

theorem isNumberSign_of_mem_renderDouble {bits : UInt64} :
    ∀ c ∈ renderDouble bits, isNumberSign c = true := by
  have magnitude : ∀ c ∈ (if bits &&& 0x7fffffffffffffff = 0 then "0.0".toList
      else (Decimal.shortest (.ofBits (bits &&& 0x7fffffffffffffff))).render positional),
      isNumberSign c = true := by
    split
    · exact List.all_eq_true.mp (by decide)
    · exact Decimal.isNumberSign_of_mem_render
  rw [renderDouble]
  split
  · exact magnitude
  · exact List.forall_mem_cons.mpr ⟨rfl, magnitude⟩

theorem isNumberSign_of_mem_render {number : Number} :
    ∀ c ∈ number.render, isNumberSign c = true := by
  cases number with
  | integer n =>
    cases n with
    | ofNat n => exact Decimal.isNumberSign_of_mem_ofNat
    | negSucc n => exact List.forall_mem_cons.mpr ⟨rfl, Decimal.isNumberSign_of_mem_ofNat⟩
  | double bits => exact isNumberSign_of_mem_renderDouble

theorem render_ne_nil (number : Number) : number.render ≠ [] := by
  cases number with
  | integer n =>
    cases n with
    | ofNat n => exact Nat.toDigits_ne_nil
    | negSucc n => exact List.cons_ne_nil _ _
  | double bits =>
    simp only [render, renderDouble]
    split
    · split
      · decide
      · exact Decimal.render_ne_nil _ _
    · exact List.cons_ne_nil _ _

theorem newline_notMem_render (number : Number) : '\n' ∉ number.render := fun member =>
  absurd (isNumberSign_of_mem_render _ member) (by decide)

end Json.Number

end SchemaClasses
