import FrameMachine.Proofs.Course
import FrameMachine.Proofs.Mishap
import FrameMachine.Proofs.ValueText

/-!
# A listing determines what a program does

A listing is cut into its lines in one way, and a line into its index and its instruction. So the
listing shows the number of instructions and what each does (`listing_eq_iff`), which is all that
a run sees of a program (`run_alike`): the operand of an instruction that takes none is neither
shown nor looked at. Any other operand is shown, and told from all other values
(`Program.listing_withOperand_iff`).
-/

namespace FrameMachine

namespace Text

/-- A line with its end, and no other line end in it. -/
def IsLine (text : String) : Prop := ∃ body, '\n' ∉ body ∧ text.toList = body ++ ['\n']

/-- A text is cut into lines in one way. -/
theorem join_injective {lines lines' : List String} (hl : ∀ l ∈ lines, IsLine l)
    (hl' : ∀ l ∈ lines', IsLine l) (h : String.join lines = String.join lines') :
    lines = lines' := by
  rw [← String.toList_inj, String.toList_join, String.toList_join] at h
  induction lines generalizing lines' with
  | nil =>
    cases lines' with
    | nil => rfl
    | cons l' lines' =>
      obtain ⟨body, -, hbody⟩ := hl' l' (List.mem_cons_self ..)
      simp [hbody] at h
  | cons l lines ih =>
    obtain ⟨body, hnone, hbody⟩ := hl l (List.mem_cons_self ..)
    cases lines' with
    | nil => simp [hbody] at h
    | cons l' lines' =>
      obtain ⟨body', hnone', hbody'⟩ := hl' l' (List.mem_cons_self ..)
      simp only [List.flatMap_cons, hbody, hbody', List.append_assoc] at h
      obtain ⟨rfl, hrest⟩ := cut_at_mark hnone hnone' h
      rw [ih (fun k hk => hl k (List.mem_cons_of_mem _ hk))
        (fun k hk => hl' k (List.mem_cons_of_mem _ hk)) hrest]
      rw [String.toList_injective (hbody.trans hbody'.symm)]

end Text

/-- The instructions have the same opcode, and the same operand if it means something to it. -/
def Instruction.Alike (i j : Instruction) : Prop :=
  i.opcode = j.opcode ∧ (i.opcode.takesOperand = true → i.operand = j.operand)

namespace Program

/-- The programs have the same number of instructions, each like the one at its index. -/
structure Alike (p q : Program) : Prop where
  size_eq : p.size = q.size
  instruction : ∀ {k i j}, p.get? k = some i → q.get? k = some j → i.Alike j

/-- The program with `v` as the operand of the instruction at `k`. -/
def withOperand (p : Program) (k : Nat) (v : Value) : Program :=
  ⟨p.code.modify k fun i => { i with operand := v }⟩

variable {p q : Program} {i j : Instruction} {k : Nat} {e : Fault}

theorem getElem?_lines (p : Program) (k : Nat) : p.lines[k]? = (p.get? k).map (line k) := by
  simp [lines, get?]

theorem isLine_line (k : Nat) (i : Instruction) : Text.IsLine (line k i) := by
  have hindex : '\n' ∉ Nat.toDigits 10 k := Text.notMem_decimal rfl
  have htext := i.newline_notMem_text
  refine ⟨(Text.alignRight 4 k.repr).toList ++ (": " ++ i.text).toList, ?_, ?_⟩
  · simp [Text.alignRight, List.leftpad, hindex, htext]
  · simp [line]

theorem line_eq_iff : line k i = line k j ↔ i.Alike j := by
  unfold line
  rw [String.append_left_inj, String.append_right_inj, Instruction.text_eq_iff, Instruction.Alike]

theorem get?_of_size_eq (h : p.size = q.size) (hi : p.get? k = some i) :
    ∃ j, q.get? k = some j := by
  obtain ⟨hlt, -⟩ := Array.getElem?_eq_some_iff.1 hi
  have hlt : k < q.code.size := Nat.lt_of_lt_of_eq hlt h
  exact ⟨q.code[k], Array.getElem?_eq_getElem hlt⟩

theorem lines_eq_iff : p.lines = q.lines ↔ p.Alike q := by
  constructor
  · intro h
    refine ⟨by simpa [lines, size] using congrArg List.length h, ?_⟩
    intro k i j hi hj
    have hk := congrArg (·[k]?) h
    simp only [getElem?_lines, hi, hj, Option.map_some, Option.some.injEq] at hk
    exact line_eq_iff.1 hk
  · intro h
    refine List.ext_getElem? fun k => ?_
    rw [getElem?_lines, getElem?_lines]
    rcases hi : p.get? k with _ | i
    · rcases hj : q.get? k with _ | j
      · rfl
      · obtain ⟨i, hi'⟩ := get?_of_size_eq h.size_eq.symm hj
        rw [hi] at hi'
        cases hi'
    · obtain ⟨j, hj⟩ := get?_of_size_eq h.size_eq hi
      rw [hj, Option.map_some, Option.map_some, line_eq_iff.2 (h.instruction hi hj)]

/-- Programs have the same listing if they are alike, and only then. -/
theorem listing_eq_iff : p.listing = q.listing ↔ p.Alike q := by
  have hlines : ∀ p : Program, ∀ l ∈ p.lines, Text.IsLine l := by
    intro p l hl
    obtain ⟨k, hk⟩ := List.mem_iff_getElem?.1 hl
    rw [getElem?_lines, Option.map_eq_some_iff] at hk
    obtain ⟨i, -, rfl⟩ := hk
    exact isLine_line k i
  rw [← lines_eq_iff]
  exact ⟨Text.join_injective (hlines p) (hlines q), fun h => congrArg String.join h⟩

theorem alike_withOperand {v : Value} (hi : p.get? k = some i)
    (ht : i.opcode.takesOperand = false) : p.Alike (p.withOperand k v) := by
  refine ⟨by simp [withOperand, size], ?_⟩
  intro n j j' hj hj'
  simp only [withOperand, get?, Array.getElem?_modify] at hi hj hj'
  split at hj'
  · rename_i hk
    subst hk
    rw [hj] at hi hj'
    cases hi
    cases hj'
    exact ⟨rfl, fun hop => by simp [ht] at hop⟩
  · rw [hj] at hj'
    cases hj'
    exact ⟨rfl, fun _ => rfl⟩

theorem get?_withOperand (hi : p.get? k = some i) (v : Value) :
    (p.withOperand k v).get? k = some { i with operand := v } := by
  unfold get? at hi
  simp only [get?, withOperand, Array.getElem?_modify, hi, if_true, Option.map_some]

theorem withOperand_ne {v : Value} (hi : p.get? k = some i) (hv : v ≠ i.operand) :
    p.withOperand k v ≠ p := by
  intro h
  have hk := get?_withOperand hi v
  rw [h, hi, Option.some.injEq] at hk
  exact hv (congrArg Instruction.operand hk).symm

/-- An operand that means something shows in the listing. -/
theorem listing_withOperand_iff {v w : Value} (hi : p.get? k = some i)
    (ht : i.opcode.takesOperand = true) :
    (p.withOperand k v).listing = (p.withOperand k w).listing ↔ v = w := by
  refine ⟨fun h => ?_, fun h => by rw [h]⟩
  exact ((listing_eq_iff.1 h).instruction (get?_withOperand hi v) (get?_withOperand hi w)).2 ht

theorem Alike.fetch (h : p.Alike q) (hi : p.fetch k = .ok i) :
    ∃ j, q.fetch k = .ok j ∧ i.Alike j := by
  rw [fetch_eq_ok_iff] at hi
  obtain ⟨j, hj⟩ := get?_of_size_eq h.size_eq hi
  exact ⟨j, fetch_eq_ok_iff.2 hj, h.instruction hi hj⟩

theorem branchTarget_alike (h : p.size = q.size) : p.branchTarget i = q.branchTarget i := by
  simp only [branchTarget, target?, h]

end Program

theorem Event.text_dispatched_iff {i j : Instruction} (pc depth : Nat) :
    (dispatched pc depth i).text = (dispatched pc depth j).text ↔ i.Alike j := by
  unfold text
  exact (String.append_right_inj _).trans Instruction.text_eq_iff

/-- Values are told apart by their texts. Two have the same text if and only if they are equal, for
doubles if their bits are; and so have the listings of a program with either as an operand that
means something, and the lines of a trace that show either. -/
theorem Value.shown_alike_iff (a b : Value) :
    (a.text = b.text ↔ a = b)
    ∧ (∀ d d' : Double, (double d).text = (double d').text ↔ d.bits = d'.bits)
    ∧ (∀ (p : Program) k i, p.get? k = some i → i.opcode.takesOperand = true →
      ((p.withOperand k a).listing = (p.withOperand k b).listing ↔ a = b))
    ∧ (∀ pc depth op, op.takesOperand = true →
      ((Event.dispatched pc depth ⟨op, a⟩).text = (Event.dispatched pc depth ⟨op, b⟩).text ↔
        a = b))
    ∧ (∀ f n, (Event.nativeReturned f n a).text = (Event.nativeReturned f n b).text ↔ a = b)
    ∧ ∀ n, (Event.finished n a).text = (Event.finished n b).text ↔ a = b := by
  have htext {v w : Value} : v.text = w.text ↔ v = w := ⟨text_injective, congrArg text⟩
  refine ⟨htext, ?_, ?_, ?_, ?_, ?_⟩
  · rintro ⟨bits⟩ ⟨bits'⟩
    rw [htext, double.injEq, Double.mk.injEq]
  · intro p k i hi ht
    exact Program.listing_withOperand_iff hi ht
  · intro pc depth op ht
    rw [Event.text_dispatched_iff]
    exact ⟨fun h => h.2 ht, fun h => ⟨rfl, fun _ => h⟩⟩
  · intro f n
    unfold Event.text
    exact (String.append_right_inj _).trans htext
  · intro n
    unfold Event.text
    exact (String.append_right_inj _).trans htext

/-- Listings show the sign of a zero and the fraction of a NaN. -/
theorem Value.signed_zeros_shown_apart :
    let p : Program := .ofList [⟨.push, .null⟩, ⟨.exit, .null⟩]
    let pushing (bits : UInt64) := p.withOperand 0 (.double ⟨bits⟩)
    (pushing 0).listing ≠ (pushing 0x8000000000000000).listing
      ∧ (pushing 0x7ff8000000000000).listing ≠ (pushing 0x7ff8000000000001).listing := by
  intro p pushing
  have hpush {a b : Value} := (shown_alike_iff a b).2.2.1 p 0 ⟨.push, .null⟩ rfl rfl
  exact ⟨fun h => absurd (hpush.1 h) (by decide), fun h => absurd (hpush.1 h) (by decide)⟩

/-- What an instruction does depends on what a listing shows of it and of the program. -/
theorem Frame.act_alike {p q : Program} {f : Frame} {i j : Instruction} (h : p.size = q.size)
    (hij : i.Alike j) : f.act p i = f.act q j := by
  rcases i with ⟨op, v⟩
  rcases j with ⟨op', w⟩
  obtain ⟨rfl, hoperand⟩ := hij
  cases op with
  | push | load | store | arg =>
    obtain rfl := hoperand rfl
    rfl
  | jump | gosub | call =>
    obtain rfl := hoperand rfl
    simp only [act, Program.branchTarget_alike h]
  | ret => simp only [act, Program.target?, h]
  | addDoubles | execute | exit => rfl

section Run

variable {p q : Program} (c : Config) (natives : NativeTable)

theorem State.execute_alike {i j : Instruction} (h : p.size = q.size) (hij : i.Alike j)
    (s : State) : s.execute ⟨p, c, natives⟩ i = s.execute ⟨q, c, natives⟩ j := by
  unfold execute
  simp only [Frame.act_alike h hij]
  rcases s.view.act q j with e | a
  · rfl
  · cases a <;> rfl

/-- The turns of alike programs show the same lines and leave the same. -/
theorem State.turn_alike (h : p.Alike q) (s : State) :
    (s.turn ⟨p, c, natives⟩).1.map (·.event.text) = (s.turn ⟨q, c, natives⟩).1.map (·.event.text)
      ∧ (s.turn ⟨p, c, natives⟩).2 = (s.turn ⟨q, c, natives⟩).2 := by
  rcases turn_cases ⟨p, c, natives⟩ s with ⟨e, he⟩ | ⟨i, max, hi, hm, hle⟩ | ⟨i, hd⟩
  · have he' : q.fetch s.pc = .error e :=
      Program.fetch_eq_error_iff.2 (h.size_eq ▸ Program.fetch_eq_error_iff.1 he)
    rw [turn_of_fetch_error he, turn_of_fetch_error he']
    exact ⟨rfl, rfl⟩
  · obtain ⟨j, hj, -⟩ := h.fetch hi
    have hj' : (⟨q, c, natives⟩ : Machine).program.fetch s.pc = .ok j := hj
    rw [turn_of_spent hi hm hle, turn_of_spent hj' hm hle]
    exact ⟨rfl, rfl⟩
  · obtain ⟨j, hj, hij⟩ := h.fetch hd.1
    have hd' : s.Dispatches ⟨q, c, natives⟩ j := ⟨hj, hd.2⟩
    have hline := (Event.text_dispatched_iff s.pc s.depth).2 hij
    rw [turn_eq_of_dispatches hd, turn_eq_of_dispatches hd', execute_alike c natives h.size_eq hij]
    simp only [List.cons_append, List.map_cons, TraceEntry.event, hline, and_self]

namespace Machine

/-- The runs of alike programs show the same lines and stand alike after every turn. -/
theorem run_alike (h : p.Alike q) (arguments : List Value) (n : Nat) :
    ((⟨p, c, natives⟩ : Machine).run n arguments).1.map (·.event.text) =
        ((⟨q, c, natives⟩ : Machine).run n arguments).1.map (·.event.text)
      ∧ ((⟨p, c, natives⟩ : Machine).run n arguments).2 =
        ((⟨q, c, natives⟩ : Machine).run n arguments).2 := by
  induction n with
  | zero =>
    have hempty : p.isEmpty = q.isEmpty := by
      simp only [Program.isEmpty, Array.isEmpty]
      exact congrArg (fun size => decide (size = 0)) h.size_eq
    simp only [run_zero, begin, h.size_eq, hempty, and_self]
  | succ n ih =>
    obtain ⟨htrace, hprogress⟩ := ih
    rw [run_succ, run_succ, List.map_append, List.map_append, htrace, hprogress]
    rcases ((⟨q, c, natives⟩ : Machine).run n arguments).2 with s | _ | _ | _
    · obtain ⟨hturn, hnext⟩ := State.turn_alike c natives h s
      rw [advance_one, advance_one, hturn, hnext]
      exact ⟨rfl, rfl⟩
    all_goals exact ⟨rfl, rfl⟩

/-- The listing of a program determines its behaviour. Two programs have the same listing if and
only if they have as many instructions, with the same opcode at every index and the same operand
where the opcode takes one; and then they have the same runs, on all arguments, under every
configuration and with any native functions. So an operand that the opcode does not take makes
another program but shows neither in the listing nor in a run. -/
theorem listing_determines_run (p q : Program) :
    (p.listing = q.listing ↔ p.size = q.size ∧
      ∀ k i j, p.get? k = some i → q.get? k = some j →
        i.opcode = j.opcode ∧ (i.opcode.takesOperand = true → i.operand = j.operand))
    ∧ (p.listing = q.listing → ∀ (c : Config) (natives : NativeTable) (arguments : List Value) n,
      ((⟨p, c, natives⟩ : Machine).run n arguments).1.map (·.event.text) =
          ((⟨q, c, natives⟩ : Machine).run n arguments).1.map (·.event.text)
        ∧ ((⟨p, c, natives⟩ : Machine).run n arguments).2 =
          ((⟨q, c, natives⟩ : Machine).run n arguments).2)
    ∧ ∀ k i v, p.get? k = some i → i.opcode.takesOperand = false → v ≠ i.operand →
      p.withOperand k v ≠ p ∧ (p.withOperand k v).listing = p.listing := by
  refine ⟨?_, ?_, ?_⟩
  · rw [Program.listing_eq_iff]
    exact ⟨fun h => ⟨h.size_eq, fun _ _ _ => h.instruction⟩,
      fun ⟨hsize, halike⟩ => ⟨hsize, halike _ _ _⟩⟩
  · intro h c natives arguments n
    exact run_alike c natives (Program.listing_eq_iff.1 h) arguments n
  · intro k i v hi ht hv
    exact ⟨Program.withOperand_ne hi hv,
      (Program.listing_eq_iff.2 (Program.alike_withOperand hi ht)).symm⟩

/-- An exit that carries 9 is listed and run as one that carries nothing. -/
theorem exit_operand_unseen :
    let p : Program := .ofList [⟨.push, .integer 5⟩, ⟨.exit, .null⟩]
    let q := p.withOperand 1 (.integer 9)
    let natives : NativeTable := fun _ _ => { result := .ok .null }
    q ≠ p ∧ q.listing = p.listing
      ∧ ((⟨q, {}, natives⟩ : Machine).run 2 []).2 = ((⟨p, {}, natives⟩ : Machine).run 2 []).2 := by
  intro p q natives
  obtain ⟨hne, hlisting⟩ := (listing_determines_run p q).2.2 1 ⟨.exit, .null⟩ (.integer 9) rfl rfl
    (by decide)
  exact ⟨hne, hlisting, ((listing_determines_run q p).2.1 hlisting {} natives [] 2).2⟩

end Machine

end Run

end FrameMachine
