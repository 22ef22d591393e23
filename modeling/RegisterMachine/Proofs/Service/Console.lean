import RegisterMachine.Proofs.Numeric.Integer
import RegisterMachine.Proofs.Service.Calls
import RegisterMachine.Proofs.Text.Lines
import RegisterMachine.Proofs.Text.Pieces
import RegisterMachine.Proofs.Text.Utf8

/-!
# Integers through the console

Service 1 prints an integer on a line of its own, and service 5 reads a line of input as an integer.
What a program prints with the one, another program reads with the other: the same values in the
same order, and zeros behind them (`Machine.readEach_of_printEach`). One call takes one line, so the
proof follows the lines of the input (`IsLines`).
-/

namespace RegisterMachine

variable {c : Console} {m : Machine} {v : Int32} {l input : Text} {ls : List Text} {vs : List Int32}

/-- The text with a carriage return put before every line feed. -/
def Text.withReturns (s : Text) : Text :=
  s.flatMap fun c => if c = '\n' then ['\r', '\n'] else [c]

theorem Text.withReturns_unlines (h : ∀ l ∈ ls, '\n' ∉ l) :
    (unlines ls).withReturns = unlines (ls.map (· ++ ['\r'])) := by
  induction ls with
  | nil => rfl
  | cons l ls ih =>
    obtain ⟨hl, hls⟩ := List.forall_mem_cons.1 h
    have hline : l.withReturns = l := by
      refine (List.flatMap_congr fun c hc => if_neg ?_).trans (List.flatMap_singleton' l)
      exact fun hc' => hl (hc' ▸ hc)
    calc (unlines (l :: ls)).withReturns
        = (l ++ '\n' :: unlines ls).withReturns := by rw [unlines_cons]
      _ = l.withReturns ++ '\r' :: '\n' :: (unlines ls).withReturns := by
        rw [withReturns, List.flatMap_append, List.flatMap_cons]
        rfl
      _ = unlines ((l :: ls).map (· ++ ['\r'])) := by
        rw [hline, ih hls, List.map_cons, unlines_cons, List.append_assoc]
        rfl

/-- The input consists of the lines; the last one may do without its line feed. -/
def IsLines (ls : List Text) (input : Text) : Prop :=
  input = Text.unlines ls ∨ input ++ ['\n'] = Text.unlines ls

theorem IsLines.nil : IsLines [] input ↔ input = [] := by
  simp [IsLines, Text.unlines]

/-- A line and what is left of the input behind it. -/
theorem IsLines.cons (h : IsLines (l :: ls) input) :
    ∃ rest, IsLines ls rest ∧ (input = l ++ '\n' :: rest ∨ input = l ∧ rest = []) := by
  unfold IsLines at h
  rw [Text.unlines_cons] at h
  rcases h with h | h
  · exact ⟨_, .inl rfl, .inl h⟩
  · rcases List.eq_nil_or_concat (Text.unlines ls) with hnil | ⟨rest, d, hrest⟩
    · rw [hnil] at h
      exact ⟨[], .inl hnil.symm, .inr ⟨List.append_cancel_right h, rfl⟩⟩
    · rw [hrest, List.concat_eq_append, ← List.cons_append, ← List.append_assoc] at h
      obtain ⟨hinput, hd⟩ := List.append_inj' h rfl
      rw [List.concat_eq_append, ← List.singleton_inj.1 hd] at hrest
      exact ⟨rest, .inr hrest.symm, .inl hinput⟩

namespace Console

/-- A line ends at the first line feed of the input or at its end. -/
theorem readLine_of_append {tail : List UInt8} (hl : '\n' ∉ l) (htail : ∀ b ∈ tail.head?, b = 10)
    (hne : c.input ≠ []) (h : c.input = Utf8.encode l ++ tail) :
    c.readLine =
      (.ok (some (Text.dropEndWhile (· == '\r') l)), { c with input := tail.drop 1 }) := by
  have hbytes : ∀ b ∈ Utf8.encode l, decide (b ≠ 10) = true := by
    intro b hb
    have hfeed : b ≠ 10 := by
      rintro rfl
      exact hl ((Utf8.ofNat_mem_encode_iff (c := '\n') (by decide)).1 hb)
    exact decide_eq_true hfeed
  have hstop : tail.takeWhile (· ≠ 10) = [] ∧ tail.dropWhile (· ≠ 10) = tail := by
    cases tail with
    | nil => exact ⟨rfl, rfl⟩
    | cons b tail =>
      obtain rfl : b = 10 := htail b rfl
      exact ⟨rfl, rfl⟩
  have hline : c.input.takeWhile (· ≠ 10) = Utf8.encode l := by
    rw [h, List.takeWhile_append_of_pos hbytes, hstop.1, List.append_nil]
  have hrest : c.input.dropWhile (· ≠ 10) = tail := by
    rw [h, List.dropWhile_append_of_pos hbytes, hstop.2]
  unfold readLine
  split
  · rename_i hnil
    exact absurd hnil hne
  · rename_i hinput
    simp only [← hinput, hline, hrest, Utf8.decode?_encode]

theorem readLine_of_nil (h : c.input = []) : c.readLine = (.ok none, c) := by
  simp only [readLine, h]

end Console

/-- A line of input that is read as the value. -/
structure ShowsWord (v : Int32) (l : Text) : Prop where
  ne_nil : l ≠ []
  newline_notMem : '\n' ∉ l
  lineValue : Service.lineValue (some (Text.dropEndWhile (· == '\r') l)) = v

theorem isBlank_eq_false_of_mem_ofInt {z : Int} {d : Char} (h : d ∈ Numeral.ofInt z) :
    Text.isBlank d = false := by
  rcases Numeral.isAlphanum_of_mem_ofInt h with h | rfl
  · exact Text.isBlank_eq_false_of_isAlphanum (by simp [h])
  · decide

theorem newline_notMem_ofInt (z : Int) : '\n' ∉ Numeral.ofInt z :=
  fun h => absurd (isBlank_eq_false_of_mem_ofInt h) (by decide)

theorem return_notMem_ofInt (z : Int) : '\r' ∉ Numeral.ofInt z :=
  fun h => absurd (isBlank_eq_false_of_mem_ofInt h) (by decide)

theorem lineValue_ofInt (v : Int32) : Service.lineValue (some (Numeral.ofInt v.toInt)) = v := by
  have htrim : Text.trim (Numeral.ofInt v.toInt) = Numeral.ofInt v.toInt :=
    Text.trim_eq_self (fun d hd => isBlank_eq_false_of_mem_ofInt (List.mem_of_head? hd))
      fun d hd => isBlank_eq_false_of_mem_ofInt (List.mem_of_getLast? hd)
  simp [Service.lineValue, htrim, Numeral.int32_ofInt]

theorem dropEndWhile_ofInt (v : Int32) :
    Text.dropEndWhile (· == '\r') (Numeral.ofInt v.toInt) = Numeral.ofInt v.toInt := by
  rcases List.eq_nil_or_concat (Numeral.ofInt v.toInt) with hnil | ⟨s, d, hs⟩
  · exact absurd hnil (Numeral.ofInt_ne_nil _)
  · have hd : d ≠ '\r' := by
      rintro rfl
      exact return_notMem_ofInt v.toInt (by simp [hs])
    rw [hs, List.concat_eq_append]
    exact Text.dropEndWhile_concat_of_neg (beq_eq_false_iff_ne.2 hd)

theorem showsWord_ofInt (v : Int32) : ShowsWord v (Numeral.ofInt v.toInt) where
  ne_nil := Numeral.ofInt_ne_nil _
  newline_notMem := newline_notMem_ofInt _
  lineValue := by rw [dropEndWhile_ofInt, lineValue_ofInt]

/-- A carriage return before the line feed is no part of the line. -/
theorem showsWord_ofInt_return (v : Int32) : ShowsWord v (Numeral.ofInt v.toInt ++ ['\r']) where
  ne_nil := by simp
  newline_notMem := by simp [newline_notMem_ofInt]
  lineValue := by
    rw [Text.dropEndWhile_append_of_pos _ (by simp), dropEndWhile_ofInt, lineValue_ofInt]

namespace Registry

theorem find?_printInt : standard.find? 1 = some ⟨"core", 1, "print_int", Service.printInt⟩ := rfl

theorem find?_readInt : standard.find? 5 = some ⟨"core", 5, "read_int", Service.readInt⟩ := rfl

end Registry

theorem Service.readInt_of_readLine {line : Option Text} {console : Console}
    (h : m.console.readLine = (.ok line, console)) :
    readInt m = (.ok .proceed, { m with console }.setArg 1 (lineValue line)) := by
  simp only [readInt, h]

namespace Machine

theorem exists_call_printInt (hsink : m.console.sink ≠ .full) :
    ∃ m', Registry.standard.call 1 m = (.ok .proceed, m') ∧ m'.console.sink = m.console.sink ∧
      m'.console.printed = m.console.printed.push (Numeral.ofInt (m.arg 1).toInt) := by
  let noted := m.note fun _ => .calling 1 "core" "print_int"
  have hnoted : noted.console.sink ≠ .full := by simpa [noted, note] using hsink
  have hprint : Service.printInt noted = _ :=
    Service.println_of_sink hnoted (Numeral.ofInt (m.arg 1).toInt)
  refine ⟨_, Registry.call_eq_ok Registry.find?_printInt hprint, ?_, ?_⟩
  · exact Console.sink_note _ _
  · simp [noted, note]

/-- A call takes the first line of the input and leaves the others. -/
theorem exists_call_readInt (hshows : ShowsWord v l) (hlines : IsLines (l :: ls) input)
    (hinput : m.console.input = Utf8.encode input) :
    ∃ m' rest, Registry.standard.call 5 m = (.ok .proceed, m') ∧ m'.arg 1 = v ∧
      IsLines ls rest ∧ m'.console.input = Utf8.encode rest := by
  obtain ⟨rest, hrest, hcut⟩ := hlines.cons
  obtain ⟨tail, htail, hbytes, hdrop⟩ : ∃ tail : List UInt8, (∀ b ∈ tail.head?, b = 10) ∧
      Utf8.encode input = Utf8.encode l ++ tail ∧ tail.drop 1 = Utf8.encode rest := by
    rcases hcut with rfl | ⟨rfl, rfl⟩
    · refine ⟨10 :: Utf8.encode rest, by simp, ?_, rfl⟩
      simp only [Utf8.encode, List.flatMap_append, List.flatMap_cons]
      rfl
    · exact ⟨[], by simp, by simp, rfl⟩
  let noted := m.note fun _ => .calling 5 "core" "read_int"
  have hnoted : noted.console.input = Utf8.encode l ++ tail := by
    rw [← hbytes, ← hinput]
    exact Console.input_note _ _
  have hne : noted.console.input ≠ [] := by
    rw [hnoted]
    exact List.append_ne_nil_of_left_ne_nil (Utf8.encode_ne_nil hshows.ne_nil) tail
  have hread := Console.readLine_of_append hshows.newline_notMem htail hne hnoted
  refine ⟨_, rest, Registry.call_eq_ok Registry.find?_readInt (Service.readInt_of_readLine hread),
    ?_, hrest, hdrop⟩
  rw [arg_setArg, hshows.lineValue]

/-- Behind the end of the input every call reads a zero. -/
theorem exists_call_readInt_of_nil (hinput : m.console.input = []) :
    ∃ m', Registry.standard.call 5 m = (.ok .proceed, m') ∧ m'.arg 1 = 0 ∧
      m'.console.input = [] := by
  let noted := m.note fun _ => .calling 5 "core" "read_int"
  have hnoted : noted.console.input = [] := by
    rw [← hinput]
    exact Console.input_note _ _
  have hread := Console.readLine_of_nil hnoted
  refine ⟨_, Registry.call_eq_ok Registry.find?_readInt (Service.readInt_of_readLine hread), ?_,
    hnoted⟩
  rw [arg_setArg]
  rfl

/-- What a program does between two calls, as long as it neither prints nor reads. -/
def IsSilent (between : Machine → Machine) : Prop :=
  ∀ m, (between m).console.input = m.console.input ∧
    (between m).console.printed = m.console.printed ∧ (between m).console.sink = m.console.sink

/-- Prints the values in order, each from `S1` by a call of service 1. -/
def printEach (between : Machine → Machine) : List Int32 → Machine → Except Fault Machine
  | [], m => .ok m
  | v :: vs, m =>
    match Registry.standard.call 1 ((between m).setArg 1 v) with
    | (.ok _, m) => printEach between vs m
    | (.error fault, _) => .error fault

/-- What `S1` holds after each of a number of calls of service 5. -/
def readEach (between : Machine → Machine) : Nat → Machine → Except Fault (List Int32)
  | 0, _ => .ok []
  | n + 1, m =>
    match Registry.standard.call 5 (between m) with
    | (.ok _, m) => (readEach between n m).map (m.arg 1 :: ·)
    | (.error fault, _) => .error fault

/-- The inputs that a printed text may come back as: the text itself, with every line feed behind a
carriage return, or without the last line feed. -/
inductive Reentered (text : Text) : Text → Prop
  | same : Reentered text text
  | returns : Reentered text text.withReturns
  | unended {input : Text} (h : text = input ++ ['\n']) : Reentered text input

variable {between : Machine → Machine}

theorem exists_printEach (hbetween : IsSilent between) (hsink : m.console.sink ≠ .full)
    (vs : List Int32) :
    ∃ m', printEach between vs m = .ok m' ∧ m'.console.printed.toList =
      m.console.printed.toList ++ vs.map fun v => Numeral.ofInt v.toInt := by
  induction vs generalizing m with
  | nil => exact ⟨m, rfl, by simp⟩
  | cons v vs ih =>
    obtain ⟨-, hprinted, hsink'⟩ := hbetween m
    have hready : ((between m).setArg 1 v).console.sink ≠ .full := by
      rw [← hsink'] at hsink
      exact hsink
    obtain ⟨m₁, hcall, hsink₁, hprinted₁⟩ := exists_call_printInt hready
    obtain ⟨m', hm', hprinted'⟩ := ih (hsink₁ ▸ hready)
    refine ⟨m', by rw [printEach, hcall]; exact hm', ?_⟩
    rw [hprinted', hprinted₁, arg_setArg]
    show ((between m).console.printed.push _).toList ++ _ = _
    simp [hprinted]

theorem readEach_of_nil (hbetween : IsSilent between) (hinput : m.console.input = []) (k : Nat) :
    readEach between k m = .ok (List.replicate k 0) := by
  induction k generalizing m with
  | zero => rfl
  | succ k ih =>
    have hready : (between m).console.input = [] := (hbetween m).1.trans hinput
    obtain ⟨m₁, hcall, harg, hinput₁⟩ := exists_call_readInt_of_nil hready
    simp only [readEach, hcall, ih hinput₁, harg]
    rfl

/-- Lines that show values are read in order, and behind them there are zeros. -/
theorem readEach_of_lines (hbetween : IsSilent between) (hshow : List.Forall₂ ShowsWord vs ls)
    (hlines : IsLines ls input) (hinput : m.console.input = Utf8.encode input) (k : Nat) :
    readEach between (vs.length + k) m = .ok (vs ++ List.replicate k 0) := by
  induction hshow generalizing m input with
  | nil =>
    rw [IsLines.nil.1 hlines] at hinput
    rw [List.length_nil, Nat.zero_add]
    exact readEach_of_nil hbetween hinput k
  | @cons v l vs ls hv _ ih =>
    have hready := (hbetween m).1.trans hinput
    obtain ⟨m₁, rest, hcall, harg, hrest, hinput₁⟩ := exists_call_readInt hv hlines hready
    rw [List.length_cons, Nat.add_right_comm]
    simp only [readEach, hcall, ih hrest hinput₁, harg]
    rfl

theorem forall₂_showsWord {line : Int32 → Text} (h : ∀ v, ShowsWord v (line v)) (vs : List Int32) :
    List.Forall₂ ShowsWord vs (vs.map line) :=
  List.forall₂_map_right_iff.2 (List.forall₂_same.2 fun v _ => h v)

/-- **Printed integers read back.** Whatever a program does between its calls, as long as it leaves
the console alone, the text that it prints gives another program the same values in the same order,
and a zero for every call more. -/
theorem readEach_of_printEach {between' : Machine → Machine} (hprint : IsSilent between)
    (hread : IsSilent between') (hsink : m.console.sink ≠ .full) (vs : List Int32) :
    ∃ m' text, printEach between vs m = .ok m' ∧
      m'.console.output = m.console.output ++ text ∧
      ∀ input, Reentered text input → ∀ reader : Machine,
        reader.console.input = Utf8.encode input → ∀ k,
          readEach between' (vs.length + k) reader = .ok (vs ++ List.replicate k 0) := by
  obtain ⟨m', hm', hprinted⟩ := exists_printEach hprint hsink vs
  refine ⟨m', Text.unlines (vs.map fun v => Numeral.ofInt v.toInt), hm', ?_, ?_⟩
  · rw [Console.output, hprinted]
    simp [Console.output, Text.unlines]
  intro input hinput reader hreader k
  have hplain := forall₂_showsWord showsWord_ofInt vs
  cases hinput with
  | same => exact readEach_of_lines hread hplain (.inl rfl) hreader k
  | unended hended => exact readEach_of_lines hread hplain (.inr hended.symm) hreader k
  | returns =>
    have hlines : ∀ l ∈ vs.map fun v => Numeral.ofInt v.toInt, '\n' ∉ l := by
      simp [newline_notMem_ofInt]
    rw [Text.withReturns_unlines hlines, List.map_map] at hreader
    have hreturn := forall₂_showsWord showsWord_ofInt_return vs
    exact readEach_of_lines hread hreturn (.inl rfl) hreader k

/-- The least word comes back through lines that end with a carriage return and a line feed, and a
call behind the last line reads a zero. -/
theorem readEach_of_printEach_least :
    let m := start {} {} {}
    IsSilent id ∧ m.console.sink ≠ .full ∧
      ∃ m' text, printEach id [Int32.minValue, 0, 17] m = .ok m' ∧
        m'.console.output = m.console.output ++ text ∧
        ∀ reader : Machine,
          reader.console.input = Utf8.encode text.withReturns →
            readEach id 4 reader = .ok [Int32.minValue, 0, 17, 0] := by
  intro m
  have hsilent : IsSilent id := fun _ => ⟨rfl, rfl, rfl⟩
  have hsink : m.console.sink ≠ .full := by decide
  obtain ⟨m', text, hprint, houtput, hread⟩ :=
    readEach_of_printEach hsilent hsilent hsink [Int32.minValue, 0, 17]
  exact ⟨hsilent, hsink, m', text, hprint, houtput, fun reader hreader =>
    hread _ .returns reader hreader 1⟩

end Machine

end RegisterMachine
