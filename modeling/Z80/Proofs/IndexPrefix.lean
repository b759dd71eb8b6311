import Z80.Proofs.Refresh

/-!
# Index prefixes

A DD or FD prefix selects IX or IY in place of HL for the opcode that follows it.
`Decode.consultsIndex` is the set of opcodes whose meaning that selection changes: those
that name HL, H, L or (HL), and CB, DD and FD, which the decoder reads apart after a
prefix. For any other opcode, ED with whatever follows it included, the prefix only adds
one byte, one opcode fetch and four cycles (`decode_indexPrefix`).

So the step that executes such a prefixed instruction at `p` is the step that executes
the instruction at `p + 1` from the machine the prefix's own fetch leaves, with PC past the
prefix and R counting the fetch, and it costs four cycles more (`executeOne_indexPrefix`).
For every instruction but LD A,R and LD R,A, this is the step from the machine that
merely starts at `p + 1`, with R counting one more fetch at the end
(`executeOne_indexPrefix_of_ne`). LD A,R copies the extra count into A, and LD R,A
overwrites R either way. A prefix followed by another prefix is a 4-cycle step of its own,
which moves PC and R past it (`executeOne_prefixPair`).
-/

namespace Z80

/-! ## Decoding -/

namespace Decode

/-- Whether the meaning of an opcode after DD or FD depends on the prefix. These are
ADD HL,rr, the loads, increments and decrements of HL, H, L and (HL), the 8-bit loads and
ALU operations with H, L or (HL) as an operand (HALT apart), POP and PUSH HL, EX (SP),HL,
JP (HL) and LD SP,HL; and CB, DD and FD, which the decoder reads apart after a prefix. -/
def consultsIndex (op : UInt8) : Bool :=
  let y := (op >>> 3) &&& 7
  let z := op &&& 7
  [0x09, 0x19, 0x21, 0x22, 0x23, 0x24, 0x25, 0x26, 0x29, 0x2A, 0x2B, 0x2C, 0x2D, 0x2E, 0x34,
    0x35, 0x36, 0x39, 0xE1, 0xE3, 0xE5, 0xE9, 0xF9, 0xCB, 0xDD, 0xFD].contains op ||
  (op >>> 6 == 1 && op != 0x76 && (decide (4 ≤ y ∧ y ≤ 6) || decide (4 ≤ z ∧ z ≤ 6))) ||
  (op >>> 6 == 2 && decide (4 ≤ z ∧ z ≤ 6))

/-- An opcode that ignores the prefix has no `(HL)` operand to turn into `(IX+d)`. -/
theorem usesMemoryHL_of_consultsIndex :
    ∀ op : UInt8, consultsIndex op = false → Timing.usesMemoryHL op = false := by
  intro op
  obtain ⟨b⟩ := op
  revert b
  decide

/-- An opcode that ignores the prefix decodes alike with it and without it. -/
theorem main_index (x : Index) (arg : Nat → UInt8) (op : UInt8) (h : consultsIndex op = false) :
    main (some x) op arg = main none op arg := by
  -- a check over the opcode table, one opcode at a time
  have hop : op = UInt8.ofNat op.toNat := by simp
  have hn : op.toNat < 256 := op.toNat_lt
  generalize op.toNat = n at hop hn
  subst hop
  interval_cases n
  -- h rules out the opcodes of the set; each other opcode reads the same leaf of the table
  all_goals simp +decide only at h
  all_goals rfl

end Decode

open Decode in
/-- After DD or FD, an opcode that ignores the prefix decodes as it does on its own, one
byte, one opcode fetch and four cycles longer. -/
theorem decode_indexPrefix {code : Nat → UInt8} (hp : code 0 = 0xDD ∨ code 0 = 0xFD)
    (hop : consultsIndex (code 1) = false) :
    decode code =
      { decode (fun k => code (k + 1)) with
        length := (decode fun k => code (k + 1)).length + 1
        fetches := (decode fun k => code (k + 1)).fetches + 1
        cycles := (decode fun k => code (k + 1)).cycles + Timing.prefixByte } := by
  have hn : ¬(code 1 = 0xDD ∨ code 1 = 0xFD) := by
    rintro (h | h) <;> rw [h] at hop <;> exact absurd hop (by decide)
  have hcb : code 1 ≠ 0xCB := fun h => absurd (h ▸ hop) (by decide)
  by_cases hed : code 1 = 0xED
  · -- the ED group drops the prefix
    simp [decode, hp, hed, Nat.add_assoc, Timing.prefixByte]
    omega
  · simp [decode, hp, hn, hcb, hed, Nat.add_assoc, main_index _ _ _ hop, Timing.indexed,
      usesMemoryHL_of_consultsIndex _ hop, Timing.prefixByte]
    omega

/-- A prefix followed by another prefix is an instruction of its own: a 4-cycle NOP. -/
theorem decode_prefixPair {code : Nat → UInt8} (hp : code 0 = 0xDD ∨ code 0 = 0xFD)
    (hq : code 1 = 0xDD ∨ code 1 = 0xFD) :
    decode code = { instr := .nop, length := 1, fetches := 1, cycles := Timing.prefixByte } := by
  simp [decode, hp, hq]

/-! ## Steps -/

/-- The machine with PC one byte further on. -/
def Machine.skipByte {β : Type} (m : Machine β) : Machine β :=
  { m with cpu := { m.cpu with regs := { m.cpu.regs with pc := m.cpu.regs.pc + 1 } } }

/-- The machine with one more opcode fetch counted in R. -/
def Machine.refreshed {β : Type} (m : Machine β) : Machine β :=
  { m with cpu := m.cpu.refresh }

/-- Counting fetches commutes with moving PC and with the EI shadow. -/
theorem Cpu.refreshBy_update (c : Cpu) (n : Nat) (e : Bool) (pc : UInt16) :
    ({ c.refreshBy n with eiShadow := e, regs := { (c.refreshBy n).regs with pc } } : Cpu) =
      ({ c with eiShadow := e, regs := { c.regs with pc } } : Cpu).refreshBy n := by
  simp only [Cpu.refreshBy_eq, Cpu.fetchedR]
  split <;> rfl

@[simp] theorem Cpu.refreshBy_pc (c : Cpu) (n : Nat) : (c.refreshBy n).regs.pc = c.regs.pc := by
  simp only [Cpu.refreshBy_eq]

namespace Machine

variable {β : Type} (m : Machine β)

theorem opcodes_skipByte : m.skipByte.cpu.opcodes = fun k => m.cpu.opcodes (k + 1) := by
  funext k
  simp only [skipByte, Cpu.opcodes, Nat.toUInt16_eq, UInt16.ofNat_add, UInt16.ofNat_one]
  ac_rfl

@[simp] theorem opcodes_refreshed : m.refreshed.cpu.opcodes = m.cpu.opcodes := by
  simp only [refreshed, Cpu.refresh_eq, Cpu.refreshBy_eq]
  rfl

@[simp] theorem control_skipByte : m.skipByte.control = m.control := rfl

@[simp] theorem control_refreshed : m.refreshed.control = m.control := by
  simp [refreshed, control]

theorem counted_counted (a b : Nat) : (m.counted a).counted b = m.counted (a + b) := by
  simp only [counted, Odometer.advance_add, Nat.add_assoc]

/-- A prefix and the instruction after it, fetched together, leave the machine that
fetching the prefix and then the instruction leaves. -/
theorem fetched_of_prefix {d : Decoded} (hd : m.cpu.nextInstr =
      { d with length := d.length + 1, fetches := d.fetches + 1 ,
               cycles := d.cycles + Timing.prefixByte })
    (hd' : m.skipByte.refreshed.cpu.nextInstr = d) :
    m.skipByte.refreshed.fetched = m.fetched := by
  have hpc : m.cpu.regs.pc + 1 + d.length.toUInt16 = m.cpu.regs.pc + (d.length + 1).toUInt16 := by
    simp only [Nat.toUInt16_eq, UInt16.ofNat_add, UInt16.ofNat_one]
    ac_rfl
  simp only [fetched, hd, hd']
  simp only [refreshed, skipByte, Cpu.refresh_eq, Cpu.refreshBy_pc, Cpu.refreshBy_update,
    Cpu.refreshBy_add, hpc, Nat.add_comm 1 d.fetches]

@[simp] theorem withRefresh_withRefresh (r r' : UInt8) (p p' : RefreshMode) :
    (m.withRefresh r p).withRefresh r' p' = m.withRefresh r' p' := rfl

/-- Counting one more fetch on a machine whose R and mode were replaced counts it from the
new R. -/
theorem refreshed_withRefresh (r : UInt8) (p : RefreshMode) :
    (m.withRefresh r p).refreshed = m.withRefresh (p.countFetches r 1) p := by
  simp only [refreshed, withRefresh_cpu, Cpu.refresh_eq, Cpu.refreshBy_withRefresh,
    Cpu.withRefresh_refreshBy]
  rfl

end Machine

namespace Exec

variable {β : Type} [Bus β]

open Decode in
/-- After DD or FD, an instruction that ignores the prefix executes as it does from the
byte after the prefix, once the prefix's fetch is counted, and costs four cycles more. -/
theorem executeOne_indexPrefix {m : Machine β}
    (hp : m.cpu.opcodes 0 = 0xDD ∨ m.cpu.opcodes 0 = 0xFD)
    (hop : consultsIndex (m.cpu.opcodes 1) = false) (ht : m.control.taken = none)
    (hh : m.cpu.regs.halted = false) :
    (executeOne : Exec β StepResult) m =
      elim (executeOne m.skipByte.refreshed)
        (fun s x => .ok ⟨s.kind, s.cycles + Timing.prefixByte⟩ (x.counted Timing.prefixByte))
        (fun e x => .error e x) := by
  have hd : m.cpu.nextInstr =
      { m.skipByte.refreshed.cpu.nextInstr with
        length := m.skipByte.refreshed.cpu.nextInstr.length + 1
        fetches := m.skipByte.refreshed.cpu.nextInstr.fetches + 1
        cycles := m.skipByte.refreshed.cpu.nextInstr.cycles + Timing.prefixByte } := by
    simp only [Cpu.nextInstr_eq, Machine.opcodes_refreshed, Machine.opcodes_skipByte]
    exact decode_indexPrefix hp hop
  have ht' : m.skipByte.refreshed.control.taken = none := by
    rw [Machine.control_refreshed, Machine.control_skipByte, ht]
  have hh' : m.skipByte.refreshed.cpu.regs.halted = false := by
    have hc := congrArg Control.halted (Machine.control_refreshed m.skipByte)
    exact hc.trans hh
  rw [executeOne_of_instruction ht hh, executeOne_of_instruction ht' hh',
    Machine.fetched_of_prefix m hd rfl, elim_elim, hd]
  cases (m.skipByte.refreshed.cpu.nextInstr.instr.exec : Exec β Nat) m.fetched with
  | ok n x =>
    simp only [elim_ok, Machine.counted_counted]
    rw [Nat.add_right_comm _ Timing.prefixByte n]
  | error e x => rfl

/-- For every instruction but LD A,R and LD R,A, the prefixed instruction executes as the
instruction after the prefix does on its own, with R counting one more fetch and four
cycles more. -/
theorem executeOne_indexPrefix_of_ne {m : Machine β}
    (hp : m.cpu.opcodes 0 = 0xDD ∨ m.cpu.opcodes 0 = 0xFD)
    (hop : Decode.consultsIndex (m.cpu.opcodes 1) = false) (ht : m.control.taken = none)
    (hh : m.cpu.regs.halted = false) (hA : m.skipByte.cpu.nextInstr.instr ≠ .ldAR)
    (hR : m.skipByte.cpu.nextInstr.instr ≠ .ldRA) :
    (executeOne : Exec β StepResult) m =
      elim (executeOne m.skipByte)
        (fun s x => .ok ⟨s.kind, s.cycles + Timing.prefixByte⟩
          (x.refreshed.counted Timing.prefixByte))
        (fun e x => .error e x.refreshed) := by
  let p := m.cpu.config.refresh
  -- the skipped machine is itself with its own R and mode put back
  have hself : m.skipByte = m.skipByte.withRefresh m.cpu.regs.r p := rfl
  have hr : m.skipByte.refreshed = m.skipByte.withRefresh (p.countFetches m.cpu.regs.r 1) p := by
    rw [hself, Machine.refreshed_withRefresh, Machine.withRefresh_withRefresh]
  have hh' : m.skipByte.cpu.regs.halted = false := hh
  -- the step leaves R at its count of the instruction's fetches, in either start
  have h₀ := executeOne_withRefresh_of_instruction (m := m.skipByte) m.cpu.regs.r p ht hh' hA hR
  have h₁ := executeOne_withRefresh_of_instruction (m := m.skipByte) (p.countFetches m.cpu.regs.r 1)
    p ht hh' hA hR
  rw [← hself] at h₀
  have hc : p.countFetches (p.countFetches m.cpu.regs.r 1) m.skipByte.cpu.nextInstr.fetches =
      p.countFetches (p.countFetches m.cpu.regs.r m.skipByte.cpu.nextInstr.fetches) 1 := by
    rw [RefreshMode.countFetches_add, RefreshMode.countFetches_add, Nat.add_comm]
  rw [executeOne_indexPrefix hp hop ht hh, hr, h₁, h₀]
  cases (executeOne : Exec β StepResult) m.skipByte with
  | ok s x =>
    simp only [mapState_ok, elim_ok, Machine.withRefresh_withRefresh,
      Machine.refreshed_withRefresh, hc]
  | error e x =>
    simp only [mapState_error, elim_error, Machine.withRefresh_withRefresh,
      Machine.refreshed_withRefresh, hc]

/-- A prefix followed by another prefix is a 4-cycle step that moves PC and R past it and
consumes the EI shadow, as every step does. -/
theorem executeOne_prefixPair {m : Machine β}
    (hp : m.cpu.opcodes 0 = 0xDD ∨ m.cpu.opcodes 0 = 0xFD)
    (hq : m.cpu.opcodes 1 = 0xDD ∨ m.cpu.opcodes 1 = 0xFD) (ht : m.control.taken = none)
    (hh : m.cpu.regs.halted = false) :
    (executeOne : Exec β StepResult) m =
      .ok ⟨.instruction, Timing.prefixByte⟩
        ((({ m with cpu := { m.cpu with eiShadow := false } } : Machine β).skipByte.refreshed).counted
          Timing.prefixByte) := by
  have hd : m.cpu.nextInstr =
      { instr := .nop, length := 1, fetches := 1, cycles := Timing.prefixByte } := by
    rw [Cpu.nextInstr_eq]
    exact decode_prefixPair hp hq
  have hf : m.fetched = ({ m with cpu := { m.cpu with eiShadow := false } } : Machine β).skipByte.refreshed := by
    simp only [Machine.fetched, hd, Machine.skipByte, Machine.refreshed, Cpu.refresh_eq]
    rfl
  rw [executeOne_of_instruction ht hh, hd, hf]
  rfl

end Exec

/-! ## Prefixes are transparent -/

open Exec Decode in
/-- DD and FD are transparent for the opcodes that do not consult the index register, ED
with whatever follows it included. Executing the prefixed instruction at `p` does exactly
what executing the instruction at `p + 1` does once the prefix's own opcode fetch is counted
in R, and costs four cycles more. For every such instruction but LD A,R and LD R,A, that is
the step from the same machine started at `p + 1`, with R counting one more fetch. A prefix
followed by another prefix is a 4-cycle step of its own, which moves PC and R past it. -/
theorem indexPrefix_transparency {β : Type} [Bus β] :
    (∀ m : Machine β, (m.cpu.opcodes 0 = 0xDD ∨ m.cpu.opcodes 0 = 0xFD) →
      consultsIndex (m.cpu.opcodes 1) = false → m.control.taken = none →
      m.cpu.regs.halted = false →
      (executeOne : Exec β StepResult) m =
        elim (executeOne m.skipByte.refreshed)
          (fun s x => .ok ⟨s.kind, s.cycles + Timing.prefixByte⟩ (x.counted Timing.prefixByte))
          (fun e x => .error e x)) ∧
    (∀ m : Machine β, (m.cpu.opcodes 0 = 0xDD ∨ m.cpu.opcodes 0 = 0xFD) →
      consultsIndex (m.cpu.opcodes 1) = false → m.control.taken = none →
      m.cpu.regs.halted = false → m.skipByte.cpu.nextInstr.instr ≠ .ldAR →
      m.skipByte.cpu.nextInstr.instr ≠ .ldRA →
      (executeOne : Exec β StepResult) m =
        elim (executeOne m.skipByte)
          (fun s x => .ok ⟨s.kind, s.cycles + Timing.prefixByte⟩
            (x.refreshed.counted Timing.prefixByte))
          (fun e x => .error e x.refreshed)) ∧
    (∀ m : Machine β, (m.cpu.opcodes 0 = 0xDD ∨ m.cpu.opcodes 0 = 0xFD) →
      (m.cpu.opcodes 1 = 0xDD ∨ m.cpu.opcodes 1 = 0xFD) → m.control.taken = none →
      m.cpu.regs.halted = false →
      (executeOne : Exec β StepResult) m =
        .ok ⟨.instruction, Timing.prefixByte⟩
          ((({ m with cpu := { m.cpu with eiShadow := false } } : Machine β).skipByte.refreshed).counted
            Timing.prefixByte)) :=
  ⟨fun _ hp hop ht hh => executeOne_indexPrefix hp hop ht hh,
    fun _ hp hop ht hh hA hR => executeOne_indexPrefix_of_ne hp hop ht hh hA hR,
    fun _ hp hq ht hh => executeOne_prefixPair hp hq ht hh⟩

/-- A CPU fresh from power-on on a plain bus that fetches `code` from address 0: every page
maps to one region holding `code`, and the fill byte, HALT, stands past its end. -/
def Machine.loaded (code : List UInt8) : Machine SimpleBus :=
  ⟨{ regs := {}, fetch := { regions := #[⟨code.toArray⟩],
                            pages := Vector.replicate 256 (some ⟨⟨0⟩, 0⟩), fill := 0x76 },
     fastRam := none, odometer := {}, config := {}, eiShadow := false, refreshClock := 0,
     rWrittenAt := 0 }, SimpleBus.empty⟩

open Exec in
/-- LD A,5 behind DD, and a DD behind an FD. -/
theorem indexPrefix_transparency_loaded :
    (executeOne : Exec SimpleBus StepResult) (Machine.loaded [0xDD, 0x3E, 0x05]) =
        elim (executeOne (Machine.loaded [0xDD, 0x3E, 0x05]).skipByte)
          (fun s x => .ok ⟨s.kind, s.cycles + Timing.prefixByte⟩
            (x.refreshed.counted Timing.prefixByte))
          (fun e x => .error e x.refreshed) ∧
      (executeOne : Exec SimpleBus StepResult) (Machine.loaded [0xFD, 0xDD, 0x21]) =
        .ok ⟨.instruction, Timing.prefixByte⟩
          ((({ Machine.loaded [0xFD, 0xDD, 0x21] with
                cpu := { (Machine.loaded [0xFD, 0xDD, 0x21]).cpu with eiShadow := false } } :
              Machine SimpleBus).skipByte.refreshed).counted Timing.prefixByte) :=
  ⟨indexPrefix_transparency.2.1 _ (by decide) (by decide) rfl rfl (by decide) (by decide),
    indexPrefix_transparency.2.2 _ (by decide) (by decide) rfl rfl⟩

open Exec in
/-- LD A,R sees the prefix's fetch: behind DD it loads A with R one count further on than
it does on its own, so the prefixed step is not the unprefixed one with only R and the
cycles moved on. From power-on, DD ED 5F leaves A = 3 and ED 5F at address 1 leaves A = 2. -/
theorem ldAR_sees_indexPrefix :
    ¬ ∀ m : Machine SimpleBus, m.cpu.config.refresh = .perFetch →
      (m.cpu.opcodes 0 = 0xDD ∨ m.cpu.opcodes 0 = 0xFD) →
      Decode.consultsIndex (m.cpu.opcodes 1) = false → m.control.taken = none →
      m.cpu.regs.halted = false →
      (executeOne : Exec SimpleBus StepResult) m =
        elim (executeOne m.skipByte)
          (fun s x => .ok ⟨s.kind, s.cycles + Timing.prefixByte⟩
            (x.refreshed.counted Timing.prefixByte))
          (fun e x => .error e x.refreshed) := by
  intro H
  have h := H (Machine.loaded [0xDD, 0xED, 0x5F]) rfl (by decide) (by decide) rfl rfl
  have ha := congrArg (fun r => (after r).cpu.regs.a) h
  revert ha
  decide +kernel

end Z80
