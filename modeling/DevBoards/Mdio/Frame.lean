import DevBoards.Mdio.Phy

/-!
# One frame on the bus

Between two calls the controller has released MDIO and the PHY is looking for
a frame (`Idle`).

* `read_spec`, `write_spec`: from there, a call of `Read` or `Write` does to
  the PHY's registers what its arguments say (`regRead`, `regWrite`), never
  clashes, and ends there again.
-/
namespace DevBoards.Mdio

open Serial

/-- What `Read` is to return and to do to the registers of the PHY at `a`. -/
def regRead {R : Type} (a : BitVec 5) (B : Backend R) (phyaddr regaddr : BitVec 8) (regs : R) :
    BitVec 16 × R :=
  if phyaddr.setWidth 5 = a then B.read (regaddr.setWidth 5) regs else (0xffff, regs)

/-- What `Write` is to do to the registers of the PHY at `a`. -/
def regWrite {R : Type} (a : BitVec 5) (B : Backend R) (phyaddr regaddr : BitVec 8)
    (regval : BitVec 16) (regs : R) : R :=
  if phyaddr.setWidth 5 = a then B.write (regaddr.setWidth 5) regval regs else regs

variable {R : Type} {a : BitVec 5} {B : Backend R} {b : Bus R} {p q : Phy R} {regs : R}

/-! ## The PHY listening -/

/-- The PHY goes from `p` to `q` on these bits, and drives nothing on the way. -/
def Listens (a : BitVec 5) (B : Backend R) : Phy R → List Bool → Phy R → Prop
  | p, [], q => p = q ∧ p.drive = none
  | p, x :: xs, q => p.drive = none ∧ Listens a B (p.edge a B x) xs q

theorem listens_append {xs ys : List Bool} {r : Phy R} (hp : Listens a B p xs q)
    (hq : Listens a B q ys r) : Listens a B p (xs ++ ys) r := by
  induction xs generalizing p with
  | nil => exact hp.1 ▸ hq
  | cons x xs ih => exact ⟨hp.1, ih hp.2⟩

/-- Fewer than 32 bits contain no preamble. -/
theorem listens_hunt (xs : List Bool) (n : Nat) (h : n + xs.length ≤ 32) :
    ∃ m, Listens a B ⟨.hunt n, regs⟩ xs ⟨.hunt m, regs⟩ := by
  induction xs generalizing n with
  | nil => exact ⟨n, rfl, rfl⟩
  | cons x xs ih =>
    rw [List.length_cons] at h
    cases x with
    | true =>
      obtain ⟨m, hm⟩ := ih (n + 1) (by omega)
      exact ⟨m, rfl, hm⟩
    | false =>
      obtain ⟨m, hm⟩ := ih 0 (by omega)
      have hedge : Phy.edge a B ⟨.hunt n, regs⟩ false = ⟨.hunt 0, regs⟩ := by
        simp [Phy.edge, show ¬ 32 ≤ n by omega]
      exact ⟨m, rfl, hedge ▸ hm⟩

theorem listens_start (n : Nat) (h : 32 ≤ n) :
    Listens a B ⟨.hunt n, regs⟩ [false, true] ⟨.header [], regs⟩ := by
  refine ⟨rfl, ?_⟩
  simp [Phy.edge, h, Listens, Phy.drive]

theorem command_drive (bits : List Bool) (regs : R) : (Phy.command a B bits regs).drive = none := by
  unfold Phy.command
  simp only
  split
  · split <;> rfl
  · rfl

/-- Bits are collected until there are `n`. -/
theorem listens_collect (n : Nat) (phase : List Bool → Phase) (done : List Bool → Phy R)
    (hmore : ∀ pre x, pre.length + 1 < n →
      Phy.edge a B ⟨phase pre, regs⟩ x = ⟨phase (pre ++ [x]), regs⟩)
    (hlast : ∀ pre x, ¬ pre.length + 1 < n → Phy.edge a B ⟨phase pre, regs⟩ x = done (pre ++ [x]))
    (hphase : ∀ pre, Phy.drive ⟨phase pre, regs⟩ = none) (hdone : ∀ bits, (done bits).drive = none)
    (xs pre : List Bool) (h : pre.length + xs.length = n) (hxs : xs ≠ []) :
    Listens a B ⟨phase pre, regs⟩ xs (done (pre ++ xs)) := by
  induction xs generalizing pre with
  | nil => exact absurd rfl hxs
  | cons x xs ih =>
    rw [List.length_cons] at h
    refine ⟨hphase pre, ?_⟩
    cases xs with
    | nil =>
      rw [hlast pre x (by simp only [List.length_nil] at h; omega)]
      exact ⟨rfl, hdone _⟩
    | cons y ys =>
      have hlen : (pre ++ [x]).length + (y :: ys).length = n := by
        simp only [List.length_append, List.length_cons, List.length_nil] at h ⊢
        omega
      have hrest := ih (pre ++ [x]) hlen (List.cons_ne_nil y ys)
      rw [hmore pre x (by simp only [List.length_cons] at h; omega)]
      rwa [List.append_assoc] at hrest

theorem listens_header (xs : List Bool) (h : xs.length = 12) :
    Listens a B ⟨.header [], regs⟩ xs (Phy.command a B xs regs) :=
  listens_collect 12 .header (fun bits => Phy.command a B bits regs) (fun _ _ h => if_pos h)
    (fun _ _ h => if_neg h) (fun _ => rfl) (fun bits => command_drive bits regs) xs []
    (by simpa using h) (by rintro rfl; cases h)

theorem listens_storing (reg : BitVec 5) (xs : List Bool) (h : xs.length = 16) :
    Listens a B ⟨.storing reg [], regs⟩ xs ⟨.hunt 0, B.write reg (ofBits xs) regs⟩ :=
  listens_collect 16 (.storing reg) (fun bits => ⟨.hunt 0, B.write reg (ofBits bits) regs⟩)
    (fun _ _ h => if_pos h) (fun _ _ h => if_neg h) (fun _ => rfl) (fun _ => rfl) xs []
    (by simpa using h) (by rintro rfl; cases h)

/-- The header of a frame names its two addresses. -/
theorem command_eq (op₁ op₂ : Bool) (phyaddr regaddr : BitVec 5) (regs : R) :
    Phy.command a B ([op₁, op₂] ++ msbBits phyaddr ++ msbBits regaddr) regs =
      if phyaddr = a then
        match [op₁, op₂] with
        | [true, false] => ⟨.turnRead (B.read regaddr regs).1, (B.read regaddr regs).2⟩
        | [false, true] => ⟨.turnWrite regaddr 2, regs⟩
        | _ => ⟨.hunt 0, regs⟩
      else ⟨.hunt 0, regs⟩ := by
  have hphy : (([op₁, op₂] ++ msbBits phyaddr ++ msbBits regaddr).drop 2).take 5 =
      msbBits phyaddr := by
    simp
  have hreg : ([op₁, op₂] ++ msbBits phyaddr ++ msbBits regaddr).drop 7 = msbBits regaddr := by
    rw [List.append_assoc, List.drop_append, List.drop_append]
    simp
  unfold Phy.command
  rw [hphy, hreg, ofBits_msbBits, ofBits_msbBits]
  rfl

/-! ## The controller on the bus -/

/-- The controller has released MDIO, MDC is low, nothing has clashed. -/
structure Released (b : Bus R) (p : Phy R) : Prop where
  out : b.out = false
  clk : b.clk = false
  clash : b.clash = false
  phy : b.phy = p

/-- The controller drives MDIO, MDC is low, nothing has clashed. -/
structure Driven (b : Bus R) (p : Phy R) : Prop where
  out : b.out = true
  clk : b.clk = false
  clash : b.clash = false
  phy : b.phy = p

variable (a B)

/-- A cycle with MDIO released: the PHY sees its own level, or a one. -/
theorem Released.clockCycle (h : Released b p) :
    Released (clockCycle (pins a B) b) (p.edge a B (p.drive.getD true)) := by
  obtain ⟨out, latch, clk, phy, clash⟩ := b
  obtain ⟨rfl, rfl, rfl, rfl⟩ := h
  exact ⟨rfl, rfl, rfl, rfl⟩

theorem Released.drive (h : Released b p) (hp : p.drive = none) :
    Driven ((pins a B).setMode .output b) p := by
  obtain ⟨out, latch, clk, phy, clash⟩ := b
  obtain ⟨rfl, rfl, rfl, rfl⟩ := h
  exact ⟨rfl, rfl, by simp [pins, Bus.check, hp], rfl⟩

theorem Driven.release (h : Driven b p) : Released ((pins a B).setMode .input b) p := by
  obtain ⟨out, latch, clk, phy, clash⟩ := b
  obtain ⟨rfl, rfl, rfl, rfl⟩ := h
  exact ⟨rfl, rfl, rfl, rfl⟩

/-- A bit sent while the PHY drives nothing. -/
theorem Driven.sendBit (h : Driven b p) (x : Bool) (hp : p.drive = none)
    (hp' : (p.edge a B x).drive = none) : Driven (sendBit (pins a B) x b) (p.edge a B x) := by
  obtain ⟨out, latch, clk, phy, clash⟩ := b
  obtain ⟨rfl, rfl, rfl, rfl⟩ := h
  refine ⟨rfl, rfl, ?_, rfl⟩
  simp [Mdio.sendBit, Mdio.clockCycle, pins, Bus.check, Bus.line, hp, hp']

/-- `m_io = level; ClockCycle();` for each of the bits. -/
def sendBits {W : Type} (P : Pins W) (xs : List Bool) (w : W) : W :=
  xs.foldl (fun w x => sendBit P x w) w

theorem Driven.sendBits (xs : List Bool) (h : Driven b p) (hl : Listens a B p xs q) :
    Driven (sendBits (pins a B) xs b) q := by
  induction xs generalizing b p with
  | nil => exact hl.1 ▸ h
  | cons x xs ih =>
    have hnext : (p.edge a B x).drive = none := by
      cases xs with
      | nil => exact hl.2.2
      | cons y ys => exact hl.2.1
    exact ih (h.sendBit a B x hl.1 hnext) hl.2

theorem address_bits (addr : BitVec 8) : msbBits (addr.setWidth 5) =
    [addr &&& 0x10 != 0, addr &&& 0x08 != 0, addr &&& 0x04 != 0, addr &&& 0x02 != 0,
      addr &&& 0x01 != 0] := by
  have h4 : (addr &&& 0x10 != 0) = addr.getLsbD 4 := and_bit addr 4 (by decide)
  have h3 : (addr &&& 0x08 != 0) = addr.getLsbD 3 := and_bit addr 3 (by decide)
  have h2 : (addr &&& 0x04 != 0) = addr.getLsbD 2 := and_bit addr 2 (by decide)
  have h1 : (addr &&& 0x02 != 0) = addr.getLsbD 1 := and_bit addr 1 (by decide)
  have h0 : (addr &&& 0x01 != 0) = addr.getLsbD 0 := and_bit addr 0 (by decide)
  rw [h4, h3, h2, h1, h0]
  simp [msbBits, List.range_succ, BitVec.getMsbD_eq_getLsbD]

theorem sendAddress_eq {W : Type} (P : Pins W) (addr : BitVec 8) (w : W) :
    sendAddress P addr w = sendBits P (msbBits (addr.setWidth 5)) w := by
  rw [address_bits]; rfl

theorem sendMessage_eq {W : Type} (P : Pins W) (n : Nat) (regval : BitVec 16) (w : W) :
    sendMessage P n regval w = sendBits P (shiftOut n regval) w := by
  induction n generalizing regval w with
  | zero => rfl
  | succ n ih =>
    have htop : (regval &&& 0x8000 != 0) = regval.msb := by
      rw [BitVec.msb_eq_getLsbD_last]
      exact and_bit regval 15 (by decide)
    have hset : (if regval &&& 0x8000 != 0 then P.setIo true w else P.setIo false w) =
        P.setIo regval.msb w := by
      rw [htop]; cases regval.msb <;> rfl
    show sendMessage P n (regval <<< 1) (Mdio.clockCycle P _) = _
    rw [ih, hset]
    rfl

theorem sendBits_append {W : Type} (P : Pins W) (xs ys : List Bool) (w : W) :
    sendBits P (xs ++ ys) w = sendBits P ys (sendBits P xs w) := List.foldl_append ..

/-! ## The preamble and the header -/

theorem Released.preamble {n : Nat} (h : Released b ⟨.hunt n, regs⟩) :
    Released (preamble (pins a B) b) ⟨.hunt (n + 32), regs⟩ := by
  have hiter : ∀ k, Released ((fun w => Mdio.clockCycle (pins a B) (Mdio.clockCycle (pins a B)
      (Mdio.clockCycle (pins a B) (Mdio.clockCycle (pins a B) w))))^[k] b)
      ⟨.hunt (n + 4 * k), regs⟩ := by
    intro k
    induction k with
    | zero => exact h
    | succ k ih =>
      rw [Function.iterate_succ_apply']
      exact (((ih.clockCycle a B).clockCycle a B).clockCycle a B).clockCycle a B
  exact hiter 8

/-- The start of a frame, its opcode and its addresses. -/
theorem Driven.header {n : Nat} (h : Driven b ⟨.hunt n, regs⟩) (hn : 32 ≤ n) (op₁ op₂ : Bool)
    (phyaddr regaddr : BitVec 8) :
    let b := Mdio.sendBit (pins a B) true (Mdio.sendBit (pins a B) false b)
    let b := Mdio.sendBit (pins a B) op₂ (Mdio.sendBit (pins a B) op₁ b)
    Driven (sendAddress (pins a B) regaddr (sendAddress (pins a B) phyaddr b))
      (if phyaddr.setWidth 5 = a then
        match [op₁, op₂] with
        | [true, false] =>
          ⟨.turnRead (B.read (regaddr.setWidth 5) regs).1, (B.read (regaddr.setWidth 5) regs).2⟩
        | [false, true] => ⟨.turnWrite (regaddr.setWidth 5) 2, regs⟩
        | _ => ⟨.hunt 0, regs⟩
      else ⟨.hunt 0, regs⟩) := by
  have hlen : ([op₁, op₂] ++ msbBits (phyaddr.setWidth 5) ++
      msbBits (regaddr.setWidth 5)).length = 12 := by
    simp
  have hcommand : Listens a B ⟨.header [], regs⟩ _ _ := listens_header _ hlen
  have hlisten := listens_append (listens_start n hn) hcommand
  rw [command_eq] at hlisten
  have hsend := h.sendBits a B _ hlisten
  simp only [sendBits_append] at hsend
  simp only [sendAddress_eq]
  exact hsend

/-! ## The reply -/

theorem readReply_succ {W : Type} (P : Pins W) (n : Nat) (ret : BitVec 16) (w : W) :
    readReply P (n + 1) ret w =
      readReply P n (ret.shiftConcat (P.getIo w).1) (Mdio.clockCycle P (P.getIo w).2) := by
  rw [shiftConcat_eq]; rfl

/-- What is left to send, or nothing any more. -/
def sendingPhase : List Bool → Phase
  | [] => .hunt 0
  | xs => .sending xs

/-- The controller reads what the PHY sends. -/
theorem Released.readReply_sending (xs : List Bool) (ret : BitVec 16)
    (h : Released b ⟨sendingPhase xs, regs⟩) :
    (readReply (pins a B) xs.length ret b).1 = shiftIn ret xs ∧
      Released (readReply (pins a B) xs.length ret b).2 ⟨.hunt 0, regs⟩ := by
  induction xs generalizing b ret with
  | nil => exact ⟨rfl, h⟩
  | cons x xs ih =>
    have hio : (pins a B).getIo b = (x, b) := by
      obtain ⟨out, latch, clk, phy, clash⟩ := b
      obtain ⟨rfl, rfl, rfl, rfl⟩ := h
      rfl
    have hnext : Released (Mdio.clockCycle (pins a B) b) ⟨sendingPhase xs, regs⟩ := by
      have hcycle := h.clockCycle a B
      cases xs with
      | nil => exact hcycle
      | cons y ys => exact hcycle
    rw [List.length_cons, readReply_succ, hio]
    exact ih (ret.shiftConcat x) hnext

/-- With nobody answering, the controller reads ones. -/
theorem Released.readReply_hunt (k n : Nat) (ret : BitVec 16) (h : Released b ⟨.hunt n, regs⟩) :
    (readReply (pins a B) k ret b).1 = shiftIn ret (List.replicate k true) ∧
      Released (readReply (pins a B) k ret b).2 ⟨.hunt (n + k), regs⟩ := by
  induction k generalizing b n ret with
  | zero => exact ⟨rfl, h⟩
  | succ k ih =>
    have hio : (pins a B).getIo b = (true, b) := by
      obtain ⟨out, latch, clk, phy, clash⟩ := b
      obtain ⟨rfl, rfl, rfl, rfl⟩ := h
      rfl
    have hnext : Released (Mdio.clockCycle (pins a B) b) ⟨.hunt (n + 1), regs⟩ := h.clockCycle a B
    rw [readReply_succ, hio]
    obtain ⟨h1, h2⟩ := ih (n + 1) (ret.shiftConcat true) hnext
    exact ⟨h1, by rwa [Nat.add_right_comm] at h2⟩

/-! ## Frames -/

/-- Between calls: MDIO is released, and the PHY looks for a frame. -/
def Idle (b : Bus R) (regs : R) : Prop := ∃ n, Released b ⟨.hunt n, regs⟩

/-- After the turnaround the first data bit is on the line. -/
theorem turnRead_edges (v : BitVec 16) (x y : Bool) :
    Phy.edge a B (Phy.edge a B ⟨.turnRead v, regs⟩ x) y = ⟨sendingPhase (msbBits v), regs⟩ := by
  have hne : sendingPhase (msbBits v) = .sending (msbBits v) := by
    cases hbits : msbBits v with
    | nil => exact absurd (hbits ▸ length_msbBits v) (by decide)
    | cons x xs => rfl
  rw [hne]
  simp [Phy.edge]

/-- **Read.** -/
theorem read_spec (h : Idle b regs) (phyaddr regaddr : BitVec 8) :
    (read (pins a B) phyaddr regaddr b).1 = (regRead a B phyaddr regaddr regs).1 ∧
      Idle (read (pins a B) phyaddr regaddr b).2 (regRead a B phyaddr regaddr regs).2 := by
  obtain ⟨n, h⟩ := h
  have hheader := ((h.preamble a B).drive a B rfl).header a B (Nat.le_add_left 32 n) true false
    phyaddr regaddr
  unfold read regRead
  simp only at hheader ⊢
  by_cases hp : phyaddr.setWidth 5 = a
  · rw [if_pos hp] at hheader ⊢
    have hturn := ((hheader.release a B).clockCycle a B).clockCycle a B
    rw [turnRead_edges] at hturn
    have hreply := hturn.readReply_sending a B _ 0
    rw [length_msbBits] at hreply
    exact ⟨hreply.1.trans (ofBits_msbBits _), 0, hreply.2⟩
  · rw [if_neg hp] at hheader ⊢
    have hturn := ((hheader.release a B).clockCycle a B).clockCycle a B
    have hreply := hturn.readReply_hunt a B 16 2 0
    exact ⟨hreply.1, 18, hreply.2⟩

/-- The turnaround and the data of a write, to a PHY that listens. -/
theorem Driven.message (h : Driven b p) (regval : BitVec 16)
    (hl : Listens a B p ([true, false] ++ shiftOut 16 regval) q) :
    Driven (sendMessage (pins a B) 16 regval
      (Mdio.sendBit (pins a B) false (Mdio.sendBit (pins a B) true b))) q := by
  have hsend := h.sendBits a B _ hl
  rw [sendBits_append] at hsend
  rw [sendMessage_eq]
  exact hsend

/-- **Write.** -/
theorem write_spec (h : Idle b regs) (phyaddr regaddr : BitVec 8) (regval : BitVec 16) :
    Idle (write (pins a B) phyaddr regaddr regval b) (regWrite a B phyaddr regaddr regval regs) := by
  obtain ⟨n, h⟩ := h
  have hheader := ((h.preamble a B).drive a B rfl).header a B (Nat.le_add_left 32 n) false true
    phyaddr regaddr
  have hbits : shiftOut 16 regval = msbBits regval := shiftOut_eq 16 regval
  have hlen : (shiftOut 16 regval).length = 16 := by rw [hbits, length_msbBits]
  unfold write regWrite
  simp only at hheader ⊢
  by_cases hp : phyaddr.setWidth 5 = a
  · rw [if_pos hp] at hheader ⊢
    have hturn : Listens a B ⟨.turnWrite (regaddr.setWidth 5) 2, regs⟩ [true, false]
        ⟨.storing (regaddr.setWidth 5) [], regs⟩ := ⟨rfl, rfl, rfl, rfl⟩
    have hstore := listens_append hturn (listens_storing _ _ hlen)
    have hend := (((hheader.message a B regval hstore).release a B).clockCycle a B).clockCycle a B
    rw [hbits, ofBits_msbBits] at hend
    exact ⟨2, hend⟩
  · rw [if_neg hp] at hheader ⊢
    obtain ⟨m, hlisten⟩ : ∃ m, Listens a B ⟨.hunt 0, regs⟩ _ ⟨.hunt m, regs⟩ :=
      listens_hunt ([true, false] ++ shiftOut 16 regval) 0
        (by simp only [List.length_append, hlen]; decide)
    have hend := (((hheader.message a B regval hlisten).release a B).clockCycle a B).clockCycle a B
    exact ⟨m + 2, hend⟩

end DevBoards.Mdio
