import Mathlib.Data.BitVec

/-!
# Signals at the Pins of the ReSDMAC

Words, longwords and the input pins of the chip, as the Verilog modules of
`RTL/` see them.

## Conventions

- A name that ends in an underscore is an active-low signal, as in the source.
- A 32-bit bus is kept as its four byte lanes: every data path of the design
  (`BUFFER`, `CPU_OD`, `DATA_O`, `SCSI_OD`) moves whole bytes or whole words.
- The nets `DATA_IO` and `PD_PORT` are resolved outside the chip, so the values
  read from them are inputs here, whoever drives them.
-/

namespace Resdmac

/-! ## §1 Bytes, words and longwords -/

abbrev Byte := BitVec 8

/-- A 16-bit half of the data bus, upper byte first. -/
structure Word where
  hi : Byte := 0
  lo : Byte := 0
deriving DecidableEq, Repr

/-- A longword as its four byte lanes: `D31-24`, `D23-16`, `D15-8`, `D7-0`. -/
structure Longword where
  uu : Byte := 0
  um : Byte := 0
  lm : Byte := 0
  ll : Byte := 0
deriving DecidableEq, Repr

namespace Word

/-- The bytes of a word in bus order. -/
def bytes (w : Word) : List Byte := [w.hi, w.lo]

@[simp] theorem bytes_length (w : Word) : w.bytes.length = 2 := rfl

end Word

namespace Longword

/-- `D31-16`. -/
def upper (w : Longword) : Word := ⟨w.uu, w.um⟩

/-- `D15-0`. -/
def lower (w : Longword) : Word := ⟨w.lm, w.ll⟩

/-- The concatenation `{upper, lower}`. -/
def ofWords (u l : Word) : Longword := ⟨u.hi, u.lo, l.hi, l.lo⟩

/-- One byte replicated on all four lanes. -/
def replicate (b : Byte) : Longword := ⟨b, b, b, b⟩

/-- The bytes of a longword in the order in which they travel. -/
def bytes (w : Longword) : List Byte := [w.uu, w.um, w.lm, w.ll]

/-- The lane that a byte pointer selects. -/
def lane (w : Longword) (i : BitVec 2) : Byte :=
  if i = 0 then w.uu else if i = 1 then w.um else if i = 2 then w.lm else w.ll

@[simp] theorem bytes_length (w : Longword) : w.bytes.length = 4 := rfl
@[simp] theorem upper_ofWords (u l : Word) : (ofWords u l).upper = u := rfl
@[simp] theorem lower_ofWords (u l : Word) : (ofWords u l).lower = l := rfl
@[simp] theorem ofWords_upper_lower (w : Longword) : ofWords w.upper w.lower = w := rfl

/-- A longword is its four lanes. -/
theorem eq_of_lane {v w : Longword} (h : ∀ i, v.lane i = w.lane i) : v = w := by
  obtain ⟨v0, v1, v2, v3⟩ := v
  obtain ⟨w0, w1, w2, w3⟩ := w
  obtain rfl : v0 = w0 := h 0
  obtain rfl : v1 = w1 := h 1
  obtain rfl : v2 = w2 := h 2
  obtain rfl : v3 = w3 := h 3
  rfl

/-- The bytes up to and with a lane. -/
theorem take_lane (w : Longword) (i : BitVec 2) :
    w.bytes.take (i.toNat + 1) = w.bytes.take i.toNat ++ [w.lane i] := by
  have h : i = 0 ∨ i = 1 ∨ i = 2 ∨ i = 3 := by revert i; decide
  rcases h with rfl | rfl | rfl | rfl <;> rfl

/-- The bytes of a stream from a lane of its first longword on. -/
theorem drop_lane (w : Longword) (i : BitVec 2) (r : List Byte) :
    (w.bytes ++ r).drop i.toNat = w.lane i :: (w.bytes ++ r).drop (i.toNat + 1) := by
  have h : i = 0 ∨ i = 1 ∨ i = 2 ∨ i = 3 := by revert i; decide
  rcases h with rfl | rfl | rfl | rfl <;> rfl

theorem flatMap_bytes_length (ws : List Longword) : (ws.flatMap bytes).length = 4 * ws.length := by
  induction ws with
  | nil => rfl
  | cons w ws ih =>
      rw [List.flatMap_cons, List.length_append, ih, bytes_length, List.length_cons]
      omega

end Longword

/-! ## §2 Input pins -/

/-- The input side of the pins of `RESDMAC.v` at one clock edge.

`flashTerm` and `flashData` are the outputs `Term` and `FLASH_DATA_OUT` of
`registers_flash`, whose flash interface is a generated core. -/
structure Pins where
  /-- `_RST` -/
  rst_ : Bool := true
  /-- `_AS_IO` as driven by another bus master -/
  as_ : Bool := true
  /-- `_DS_IO` as driven by another bus master -/
  ds_ : Bool := true
  /-- `R_W_IO` as driven by another bus master -/
  rw : Bool := true
  /-- `_CS` -/
  cs_ : Bool := true
  /-- `ADDR`, address bits 6 to 2 -/
  addr : BitVec 5 := 0
  /-- `DATA_IO` -/
  data : Longword := {}
  /-- `_DSACK_IO[0]` as driven by the addressed device -/
  dsack0_ : Bool := true
  /-- `_DSACK_IO[1]` as driven by the addressed device -/
  dsack1_ : Bool := true
  /-- `_STERM` -/
  sterm_ : Bool := true
  /-- `_BERR` -/
  berr_ : Bool := true
  /-- `_BG` -/
  bg_ : Bool := true
  /-- `_BGACK_IO` as driven by another bus master -/
  bgack_ : Bool := true
  /-- `_DREQ` of the WD33C93 -/
  dreq_ : Bool := true
  /-- `INTA` of the WD33C93 -/
  inta : Bool := false
  /-- `PD_PORT[7:0]` -/
  pd : Byte := 0
  /-- `DSP_DATA`, gathered from spare pins -/
  dspData : Byte := 0
  flashTerm : Bool := false
  flashData : Longword := {}
deriving DecidableEq, Repr

/-- The byte offset that the register file decodes: `{1'b0, ADDR, 2'b00}`. -/
def Pins.offset (p : Pins) : BitVec 8 := 0#1 ++ p.addr ++ 0#2

/-! ## §3 Terminations -/

/-- How memory answers a cycle of the chip. -/
inductive Term where
  | wait | sterm | dsack32 | dsack16
deriving DecidableEq, Repr

/-- The answer is `_STERM`. -/
def Term.isSterm : Term → Bool
  | .sterm => true
  | _ => false

/-- The answer is the `_DSACK` of a 16-bit port. -/
def Term.isNarrow : Term → Bool
  | .dsack16 => true
  | _ => false

/-- The answer is a `_DSACK`. -/
def Term.isDsack : Term → Bool
  | .dsack32 | .dsack16 => true
  | _ => false

/-- The answer on the pins. -/
def Pins.term (p : Pins) : Term :=
  match p.sterm_, p.dsack1_, p.dsack0_ with
  | false, _, _ => .sterm
  | true, true, _ => .wait
  | true, false, false => .dsack32
  | true, false, true => .dsack16

/-- The pins show one of the four answers, without a bus error. -/
structure Pins.Clean (p : Pins) : Prop where
  berr_ : p.berr_ = true
  flashTerm : p.flashTerm = false
  single : p.sterm_ = false → p.dsack0_ = true ∧ p.dsack1_ = true
  wide : p.dsack1_ = true → p.dsack0_ = true

instance (p : Pins) : Decidable p.Clean :=
  decidable_of_iff
    (p.berr_ = true ∧ p.flashTerm = false ∧
      (p.sterm_ = false → p.dsack0_ = true ∧ p.dsack1_ = true) ∧
      (p.dsack1_ = true → p.dsack0_ = true))
    ⟨fun ⟨h1, h2, h3, h4⟩ => ⟨h1, h2, h3, h4⟩, fun ⟨h1, h2, h3, h4⟩ => ⟨h1, h2, h3, h4⟩⟩

namespace Pins.Clean

variable {p : Pins} (hp : p.Clean)
include hp

omit hp in
theorem sterm_eq : p.sterm_ = !p.term.isSterm := by
  unfold Pins.term
  cases p.sterm_ <;> cases p.dsack1_ <;> cases p.dsack0_ <;> rfl

theorem dsack_eq : (!(p.dsack0_ && p.dsack1_)) = p.term.isDsack := by
  have h1 := hp.single
  have h2 := hp.wide
  unfold Pins.term
  cases e1 : p.sterm_ <;> cases e2 : p.dsack1_ <;> cases e3 : p.dsack0_ <;>
    simp_all [Term.isDsack]

omit hp in
/-- The width of the port that answered with `_DSACK`. -/
theorem port_eq (h : p.term.isDsack = true) :
    p.sterm_ = true ∧ p.dsack1_ = false ∧ p.dsack0_ = p.term.isNarrow := by
  unfold Pins.term at h ⊢
  cases e1 : p.sterm_ <;> cases e2 : p.dsack1_ <;> cases e3 : p.dsack0_ <;>
    simp_all [Term.isDsack, Term.isNarrow]

end Pins.Clean

/-- An answer, once given, stays. -/
def Term.Held (a b : Term) : Prop := a = .wait ∨ b = a

instance (a b : Term) : Decidable (a.Held b) := inferInstanceAs (Decidable (_ ∨ _))

theorem Term.Held.eq {a b : Term} (h : a.Held b) (ha : a.isDsack = true) : b = a := by
  rcases h with rfl | h
  · exact Bool.noConfusion ha
  · exact h

end Resdmac
