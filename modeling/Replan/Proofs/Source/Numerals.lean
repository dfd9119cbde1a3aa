import Replan.Proofs.Source.Lexemes

set_option autoImplicit false

namespace Replan

namespace Number

variable {R : Type} [Number R]

def unsigned (x : R) : R := if isZero x then zero else x

def Alike (x y : R) : Prop := x = y ∨ isZero x = true ∧ isZero y = true

theorem unsigned_alike (x : R) (zeroIsZero : isZero (zero : R) = true) : Alike x (unsigned x) := by
  rw [unsigned]
  split
  · exact .inr ⟨‹_›, zeroIsZero⟩
  · exact .inl rfl

class ZerosAlike (R : Type) [Number R] : Prop where
  zero : isZero (zero : R) = true
  add : ∀ x x' y y' : R, Alike x x' → Alike y y' → Alike (x + y) (x' + y')
  lt : ∀ x y y' : R, Alike y y' → Number.lt x y = Number.lt x y'
  le : ∀ x x' y y' : R, Alike x x' → Alike y y' → Number.le x y = Number.le x' y'

theorem sum_alike [ZerosAlike R] (xs ys : List R) (each : List.Forall₂ Alike xs ys) : Alike (sum xs) (sum ys) := by
  suffices ∀ x y : R, Alike x y → Alike (xs.foldl (· + ·) x) (ys.foldl (· + ·) y) from this _ _ (.inl rfl)
  induction each with
  | nil => exact fun _ _ => id
  | cons first _ ih => exact fun x y start => ih _ _ (ZerosAlike.add x y _ _ start first)

end Number

namespace Source

open Replan.Source.Parser

variable {R : Type} {G : RequirementSet}

structure Numeral where
  negative : Bool
  whole : List Char
  fraction : Option (List Char)

namespace Numeral

def text (n : Numeral) : List Char :=
  (if n.negative then ['-'] else []) ++ n.whole ++ n.fraction.elim [] ('.' :: ·)

structure Digits (n : Numeral) : Prop where
  nonempty : n.whole ≠ []
  whole : ∀ c ∈ n.whole, c.isDigit = true
  fraction : ∀ digits ∈ n.fraction, ∀ c ∈ digits, c.isDigit = true

def value [Number R] (n : Numeral) : R :=
  let magnitude : R :=
    Number.ofDecimal (Decimal.value (n.whole ++ n.fraction.getD [])) (n.fraction.getD []).length
  if n.negative then -magnitude else magnitude

end Numeral

def Stops (rest : List Char) : Prop := ∀ c ∈ rest.head?, c.isDigit = false ∧ c ≠ '.'

theorem ended_number (rest : List Char) (ended : Ended rest) : Stops rest ∧ rest.head? ≠ some '/' := by
  constructor
  · intro c first
    rcases ended c first with rfl | rfl | rfl <;> decide
  · intro slash
    rcases ended '/' slash with same | same | same <;> cases same

theorem digits_start (digits rest : List Char) (nonempty : digits ≠ []) (all : ∀ c ∈ digits, c.isDigit = true) :
    ∃ c, (digits ++ rest).head? = some c ∧ c.isDigit = true := by
  obtain ⟨c, more, rfl⟩ := List.exists_cons_of_ne_nil nonempty
  exact ⟨c, rfl, all c List.mem_cons_self⟩

theorem digit_groups_read (n : Numeral) (digits : n.Digits) (rest : List Char) (stops : Stops rest) :
    Reads (R := R) digitGroups ⟨n.whole ++ n.fraction.elim [] ('.' :: ·) ++ rest, G⟩ ⟨rest, G⟩
      (· = (n.whole, n.fraction.getD [])) := by
  obtain ⟨negative, whole, fraction⟩ := n
  obtain ⟨nonempty, wholeDigits, fractionDigits⟩ := digits
  obtain ⟨c, more, rfl⟩ := List.exists_cons_of_ne_nil nonempty
  refine either_first ?_
  rw [List.append_assoc]
  refine reads_bind (satisfy_reads Char.isDigit c _ (wholeDigits c List.mem_cons_self)) fun first same => ?_
  refine reads_bind (take_while_reads Char.isDigit more _
    (fun d member => wholeDigits d (List.mem_cons_of_mem c member)) ?_) fun others found => ?_
  · intro d follows
    cases fraction with
    | none => exact (stops d follows).1
    | some digits =>
        cases follows
        decide
  · rw [same, found]
    cases fraction with
    | none =>
        exact reads_then_pure _ (opt_nothing (Q := (· = none)) (misses_bind (symbol_misses '.' rest
          fun point => (stops '.' point).2 rfl)) rfl) fun fraction none => by rw [none]
    | some digits =>
        refine reads_then_pure _ (opt_reads (Q := (· = some digits)) (reads_bind (symbol_reads '.' _) fun _ _ =>
          take_while_reads Char.isDigit digits rest (fractionDigits digits rfl) fun d follows => (stops d follows).1)
          fun a same => congrArg some same) fun fraction found => ?_
        rw [found]

variable [Number R]

theorem decimal_reads (n : Numeral) (digits : n.Digits) (rest : List Char) (stops : Stops rest) :
    Reads (R := R) decimal ⟨n.text ++ rest, G⟩ ⟨rest, G⟩ (· = n.value) := by
  have groups := digit_groups_read (R := R) (G := G) n digits rest stops
  obtain ⟨negative, whole, fraction⟩ := n
  refine named_reads _ ?_
  cases negative with
  | true =>
      exact reads_bind (opt_reads (Q := (·.isSome = true)) (symbol_reads '-' _) fun _ _ => rfl) fun minus found =>
        reads_then_pure _ groups fun pair same => by simp only [same, if_pos found]; rfl
  | false =>
      have noMinus : (whole ++ (fraction.elim [] ('.' :: ·) ++ rest)).head? ≠ some '-' := by
        obtain ⟨c, first, digit⟩ := digits_start whole (fraction.elim [] ('.' :: ·) ++ rest) digits.nonempty digits.whole
        rw [first]
        rintro ⟨⟩
        cases digit
      rw [← List.append_assoc] at noMinus
      exact reads_bind (opt_nothing (Q := (· = none)) (symbol_misses '-' _ noMinus) rfl) fun minus none =>
        reads_then_pure _ groups fun pair same => by simp only [same, none]; rfl

theorem decimal_misses (rest : List Char) (other : ∀ c ∈ rest.head?, c.isDigit = false ∧ c ≠ '-' ∧ c ≠ '.') :
    Misses (R := R) decimal ⟨rest, G⟩ := by
  refine named_misses _ (misses_second (opt_nothing (Q := (· = none)) (symbol_misses '-' rest
    fun minus => (other '-' minus).2.1 rfl) rfl) fun _ _ => misses_bind (either_misses (misses_bind ?_) (misses_bind ?_)))
  · exact satisfy_misses _ rest fun c first => (other c first).1
  · exact symbol_misses '.' rest fun point => (other '.' point).2.2 rfl

theorem number_reads (n : Numeral) (digits : n.Digits) (rest : List Char) (stops : Stops rest)
    (noSlash : rest.head? ≠ some '/') :
    Reads (R := R) number ⟨n.text ++ rest, G⟩ ⟨skip rest, G⟩ (· = n.value) := by
  refine reads_bind (decimal_reads n digits rest stops) fun x same => ?_
  refine reads_bind (opt_nothing (Q := (· = none)) (misses_bind (symbol_misses '/' rest noSlash)) rfl) fun d none => ?_
  refine reads_bind (blanks_reads rest) fun _ _ => ?_
  rw [none]
  exact reads_pure _ _ same

theorem dash_misses (rest : List Char) (other : ∀ c ∈ rest.head?, c.isDigit = false ∧ c ≠ '.') :
    Misses (R := R) number ⟨'-' :: rest, G⟩ := by
  refine misses_bind (named_misses _ (misses_second (opt_reads (Q := fun _ => True) (symbol_reads '-' rest)
    fun _ _ => trivial) fun _ _ => misses_bind (either_misses (misses_bind ?_) (misses_bind ?_))))
  · exact satisfy_misses _ rest fun c first => (other c first).1
  · exact symbol_misses '.' rest fun point => (other '.' point).2 rfl

theorem number_misses (rest : List Char) (other : ∀ c ∈ rest.head?, c.isDigit = false ∧ c ≠ '-' ∧ c ≠ '.') :
    Misses (R := R) number ⟨rest, G⟩ :=
  misses_bind (decimal_misses rest other)

-- Numbers whose texts are read back as they are.
structure Readable (finite : R → Prop) : Prop where
  reads : ∀ x, finite x → Number.isZero x = false → ∀ (G : RequirementSet) (rest : List Char), Ended rest →
    Reads number ⟨(Number.text x).toList ++ rest, G⟩ ⟨skip rest, G⟩ (· = x)
  equal : ∀ x, finite x → Number.eq x x = true

theorem number_starts (text rest : List Char) (stop : Place) (value : R → Prop)
    (reads : Reads number ⟨text ++ rest, G⟩ stop value) (ended : Ended rest) : Solid text := by
  by_contra hollow
  have misses : Misses (R := R) number ⟨text ++ rest, G⟩ := by
    refine number_misses _ fun c first => ?_
    cases text with
    | nil => rcases ended c first with rfl | rfl | rfl <;> decide
    | cons d text =>
        cases first
        by_contra numeral
        refine hollow (solid_unless (fun c => !(c.isDigit || c == '-' || c == '.')) c _ rfl ?_ (by decide))
        simpa using fun noDigit noMinus => not_not.mp fun noPoint => numeral ⟨noDigit, noMinus, noPoint⟩
  obtain ⟨a, next, done, -⟩ := reads ⟨text ++ rest, 0, false, G⟩ rfl
  obtain ⟨e, missed⟩ := misses ⟨text ++ rest, 0, false, G⟩ rfl
  rw [done] at missed
  cases missed

variable {finite : R → Prop}

theorem source_reads (readable : Readable finite) (x : R) (known : finite x) :
    Solid (Number.source x).toList ∧
      Takes (R := R) Ended G number (Number.source x).toList (· = Number.unsigned x) := by
  have reads (rest : List Char) (ended : Ended rest) :
      Reads (R := R) number ⟨(Number.source x).toList ++ rest, G⟩ ⟨skip rest, G⟩ (· = Number.unsigned x) := by
    rw [Number.source, Number.unsigned]
    cases isZero : Number.isZero x with
    | true =>
        rw [if_pos rfl, if_pos rfl]
        obtain ⟨stops, noSlash⟩ := ended_number rest ended
        exact number_reads (R := R) ⟨false, ['0'], none⟩ ⟨by simp, by simp, by simp⟩ rest stops noSlash
    | false => exact readable.reads x known isZero G rest ended
  have solid := number_starts _ _ _ _ (reads [')'] (ended_closed [])) (ended_closed [])
  refine ⟨solid, fun tail ended => ?_⟩
  rw [skip_solid _ _ solid]
  exact reads tail ended

end Source

end Replan
