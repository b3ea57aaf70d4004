import InferenceOS.Cui.Parser
import InferenceOS.Theorems.PathStacks

/-! The language of command lines. The parser accepts it, writes the arguments one behind the other into its storage and nothing
    behind the storage, and reads back the arguments of a line in which each one is quoted. -/

namespace InferenceOS
open Program Vfs

namespace Cui
variable {s t : ParsedLine} {line rest value : Text} {quoted : Bool} {arguments : List Text}

def Allowed (character : UInt8) : Prop := ¬(character < 0x20 ∨ 0x7e < character) ∧ forbiddenSyntax character = false

instance {character : UInt8} : Decidable (Allowed character) := by
  unfold Allowed
  infer_instance

def Plain (character : UInt8) : Prop := Allowed character ∧ character ≠ doubleQuote ∧ character ≠ ascii '\\'

/-- An argument, read inside or outside quotes up to the end of the line or an unquoted space: the line, the value of the argument and
    the rest of the line. -/
inductive Argument : Bool → Text → Text → Text → Prop where
  | done : Argument false [] [] []
  | space {rest : Text} : Argument false (ascii ' ' :: rest) [] (ascii ' ' :: rest)
  | toggle {quoted : Bool} {line value rest : Text} : Argument (!quoted) line value rest → Argument quoted (doubleQuote :: line) value rest
  | escaped {character : UInt8} {line value rest : Text} : character = doubleQuote ∨ character = ascii '\\' →
    Argument true line value rest → Argument true (ascii '\\' :: character :: line) (character :: value) rest
  | plain {quoted : Bool} {character : UInt8} {line value rest : Text} : Plain character → ¬(quoted = false ∧ character = ascii ' ') →
    Argument quoted line value rest → Argument quoted (character :: line) (character :: value) rest

/-- A line that unquoted spaces split into arguments. -/
inductive Line : Text → List Text → Prop where
  | done : Line [] []
  | space {line : Text} {arguments : List Text} : Line line arguments → Line (ascii ' ' :: line) arguments
  | argument {character : UInt8} {line value rest : Text} {arguments : List Text} : character ≠ ascii ' ' →
    Argument false (character :: line) value rest → Line rest arguments → Line (character :: line) (value :: arguments)

theorem Argument.rest_eq (h : Argument quoted line value rest) : rest = [] ∨ ∃ tail, rest = ascii ' ' :: tail := by
  induction h with
  | done => exact Or.inl rfl
  | space => exact Or.inr ⟨_, rfl⟩
  | toggle _ ih => exact ih
  | escaped _ _ ih => exact ih
  | plain _ _ _ ih => exact ih

theorem Argument.length_le (h : Argument quoted line value rest) : value.length + rest.length ≤ line.length := by
  induction h with
  | done => exact le_rfl
  | space => exact (Nat.zero_add _).le
  | toggle _ ih =>
    rw [List.length_cons]
    omega
  | escaped _ _ ih =>
    rw [List.length_cons, List.length_cons, List.length_cons]
    omega
  | plain _ _ _ ih =>
    rw [List.length_cons, List.length_cons]
    omega

theorem Argument.passes {character : UInt8} (h : Argument false (character :: line) value rest) (hne : character ≠ ascii ' ') :
    rest.length ≤ line.length := by
  cases h with
  | space => exact absurd rfl hne
  | toggle h => exact (Nat.le_add_left _ _).trans h.length_le
  | plain _ _ h => exact (Nat.le_add_left _ _).trans h.length_le

theorem Argument.unique {value' rest' : Text} (h : Argument quoted line value rest) (h' : Argument quoted line value' rest') :
    value = value' ∧ rest = rest' := by
  induction h generalizing value' with
  | done =>
    cases h'
    exact ⟨rfl, rfl⟩
  | space =>
    cases h' with
    | space => exact ⟨rfl, rfl⟩
    | plain _ hspace => exact absurd ⟨rfl, rfl⟩ hspace
  | toggle _ ih =>
    cases h' with
    | toggle h' => exact ih h'
    | plain hplain => exact absurd rfl hplain.2.1
  | escaped _ _ ih =>
    cases h' with
    | escaped _ h' => exact ⟨congrArg _ (ih h').1, (ih h').2⟩
    | plain hplain => exact absurd rfl hplain.2.2
  | plain hplain hspace _ ih =>
    cases h' with
    | space => exact absurd ⟨rfl, rfl⟩ hspace
    | toggle => exact absurd rfl hplain.2.1
    | escaped => exact absurd rfl hplain.2.2
    | plain _ _ h' => exact ⟨congrArg _ (ih h').1, (ih h').2⟩

theorem Line.unique {arguments' : List Text} (h : Line line arguments) (h' : Line line arguments') : arguments = arguments' := by
  induction h generalizing arguments' with
  | done =>
    cases h'
    rfl
  | space _ ih =>
    cases h' with
    | space h' => exact ih h'
    | argument hne => exact absurd rfl hne
  | argument hne hvalue _ ih =>
    cases h' with
    | space => exact absurd rfl hne
    | argument _ hvalue' h' =>
      obtain ⟨rfl, rfl⟩ := hvalue.unique hvalue'
      rw [ih h']

theorem line_dropWhile : Line (line.dropWhile (· = ascii ' ')) arguments ↔ Line line arguments := by
  induction line with
  | nil => exact Iff.rfl
  | cons character line ih =>
    by_cases hspace : character = ascii ' '
    · rw [List.dropWhile_cons, if_pos (decide_eq_true hspace), ih, hspace]
      refine ⟨.space, fun h => ?_⟩
      cases h with
      | space h => exact h
      | argument hne => exact absurd rfl hne
    · rw [List.dropWhile_cons, if_neg fun hx => hspace (of_decide_eq_true hx)]

theorem Argument.nonzero (h : Argument quoted line value rest) : 0 ∉ value := by
  induction h with
  | done => exact List.not_mem_nil
  | space => exact List.not_mem_nil
  | toggle _ ih => exact ih
  | escaped hcharacter _ ih =>
    refine List.not_mem_cons_of_ne_of_not_mem ?_ ih
    rcases hcharacter with rfl | rfl <;> decide
  | plain hplain _ _ ih =>
    refine List.not_mem_cons_of_ne_of_not_mem ?_ ih
    rintro rfl
    exact absurd hplain.1.1 (by decide)

/-- The bytes at the start of the storage, of which none lies behind it. -/
structure Holds (s : ParsedLine) (bytes : Text) : Prop where
  stored : ∃ unused, s.storage = bytes ++ unused ∧ bytes.length + unused.length = cuiMaxPayload + 1
  destination : s.destination = bytes.length
  within : s.overrun = false

theorem putByte_spec {bytes : Text} {byte : UInt8} {E : CuiParseError → ParsedLine → Prop} (h : Holds s bytes)
    (hroom : bytes.length ≤ cuiMaxPayload) :
    wp (putByte byte) (fun _ t => Holds t (bytes ++ [byte]) ∧ t.arguments = s.arguments) E s := by
  obtain ⟨⟨unused, hstorage, hlength⟩, hdestination, hwithin⟩ := h
  cases unused with
  | nil =>
    rw [List.length_nil] at hlength
    omega
  | cons old unused =>
    rw [List.length_cons] at hlength
    refine ⟨⟨⟨unused, ?_, ?_⟩, ?_, ?_⟩, rfl⟩
    · show s.storage.set s.destination byte = _
      rw [hstorage, hdestination, List.set_append_right _ _ le_rfl, Nat.sub_self, List.set_cons_zero, List.append_assoc]
      rfl
    · rw [List.length_append, List.length_singleton]
      omega
    · rw [List.length_append, ← hdestination]
      rfl
    · show (s.overrun || decide _) = false
      rw [hwithin, hdestination, Bool.false_or, decide_eq_false]
      omega

theorem scanArgument_spec : ∀ {quoted : Bool} {line : Text} {s : ParsedLine} {bytes : Text}, Holds s bytes →
    bytes.length + line.length ≤ cuiMaxPayload →
    wp (scanArgument quoted line)
      (fun rest t => ∃ value, Argument quoted line value rest ∧ Holds t (bytes ++ value) ∧ t.arguments = s.arguments)
      (fun _ t => (∀ value rest, ¬Argument quoted line value rest) ∧ t.overrun = false) s
  | quoted, [], s, bytes, h, hroom => by
    unfold scanArgument
    cases quoted
    · rw [failIf_pass Bool.false_ne_true]
      exact ⟨[], .done, by rwa [List.append_nil], rfl⟩
    · rw [failIf_bind rfl]
      exact ⟨fun value rest hx => (nomatch hx), h.within⟩
  | quoted, character :: line, s, bytes, h, hroom => by
    rw [List.length_cons] at hroom
    unfold scanArgument
    by_cases hrange : character < 0x20 ∨ 0x7e < character
    · rw [failIf_bind hrange]
      refine ⟨fun value rest hx => ?_, h.within⟩
      cases hx with
      | space => exact absurd hrange (by decide)
      | toggle => exact absurd hrange (by decide)
      | escaped => exact absurd hrange (by decide)
      | plain hplain => exact hplain.1.1 hrange
    rw [failIf_pass hrange]
    by_cases hspace : quoted = false ∧ character = ascii ' '
    · rw [if_pos hspace]
      obtain ⟨rfl, rfl⟩ := hspace
      exact ⟨[], .space, by rwa [List.append_nil], rfl⟩
    rw [if_neg hspace]
    by_cases hquote : character = doubleQuote
    · rw [if_pos hquote]
      subst hquote
      refine wp_mono (scanArgument_spec h (by omega)) (fun rest t ⟨value, hvalue, ht, hsame⟩ => ?_) fun e t ⟨hno, ht⟩ => ?_
      · exact ⟨value, .toggle hvalue, ht, hsame⟩
      · refine ⟨fun value rest hx => ?_, ht⟩
        cases hx with
        | toggle hx => exact hno _ _ hx
        | plain hplain => exact absurd rfl hplain.2.1
    rw [if_neg hquote]
    by_cases hforbidden : forbiddenSyntax character = true
    · rw [failIf_bind hforbidden]
      refine ⟨fun value rest hx => ?_, h.within⟩
      cases hx with
      | space => exact absurd hforbidden (by decide)
      | toggle => exact absurd rfl hquote
      | escaped => exact absurd hforbidden (by decide)
      | plain hplain => exact Bool.false_ne_true (hplain.1.2.symm.trans hforbidden)
    rw [failIf_pass hforbidden]
    by_cases hescape : character = ascii '\\'
    · rw [if_pos hescape]
      subst hescape
      cases line with
      | nil =>
        refine ⟨fun value rest hx => ?_, h.within⟩
        cases hx with
        | plain hplain => exact absurd rfl hplain.2.2
      | cons next line =>
        rw [List.length_cons] at hroom
        dsimp only
        by_cases hsyntax : quoted = false ∨ (next ≠ doubleQuote ∧ next ≠ ascii '\\')
        · rw [failIf_bind hsyntax]
          refine ⟨fun value rest hx => ?_, h.within⟩
          cases hx with
          | escaped hnext =>
            obtain ⟨hone, htwo⟩ := hsyntax.resolve_left nofun
            exact hnext.elim hone htwo
          | plain hplain => exact absurd rfl hplain.2.2
        rw [failIf_pass hsyntax, wp_bind]
        rw [not_or, Bool.not_eq_false, not_and_or, not_not, not_not] at hsyntax
        obtain ⟨rfl, hnext⟩ := hsyntax
        refine wp_mono (putByte_spec h (by omega)) (fun _ u ⟨hu, hsame⟩ => ?_) fun _ _ he => he
        refine wp_mono (scanArgument_spec hu (by rw [List.length_append, List.length_singleton]; omega))
          (fun rest t ⟨value, hvalue, ht, hkept⟩ => ?_) fun e t ⟨hno, ht⟩ => ?_
        · rw [List.append_assoc] at ht
          exact ⟨next :: value, .escaped hnext hvalue, ht, hkept.trans hsame⟩
        · refine ⟨fun value rest hx => ?_, ht⟩
          cases hx with
          | escaped _ hx => exact hno _ _ hx
          | plain hplain => exact absurd rfl hplain.2.2
    · rw [if_neg hescape, wp_bind]
      have hplain : Plain character := ⟨⟨hrange, Bool.eq_false_iff.mpr hforbidden⟩, hquote, hescape⟩
      refine wp_mono (putByte_spec h (by omega)) (fun _ u ⟨hu, hsame⟩ => ?_) fun _ _ he => he
      refine wp_mono (scanArgument_spec hu (by rw [List.length_append, List.length_singleton]; omega))
        (fun rest t ⟨value, hvalue, ht, hkept⟩ => ?_) fun e t ⟨hno, ht⟩ => ?_
      · rw [List.append_assoc] at ht
        exact ⟨character :: value, .plain hplain hspace hvalue, ht, hkept.trans hsame⟩
      · refine ⟨fun value rest hx => ?_, ht⟩
        cases hx with
        | space => exact absurd ⟨rfl, rfl⟩ hspace
        | toggle => exact absurd rfl hquote
        | escaped => exact absurd rfl hescape
        | plain _ _ hx => exact hno _ _ hx

def packed (arguments : List Text) : Text := arguments.flatMap (· ++ [0])

def starts : Nat → List Text → List Nat
  | _, [] => []
  | start, value :: arguments => start :: starts (start + value.length + 1) arguments

theorem packed_snoc : packed (arguments ++ [value]) = packed arguments ++ value ++ [0] := by
  unfold packed
  rw [List.flatMap_append, List.flatMap_singleton, List.append_assoc]

theorem starts_snoc : ∀ {arguments : List Text} {start : Nat},
    starts start (arguments ++ [value]) = starts start arguments ++ [start + (packed arguments).length]
  | [], _ => rfl
  | first :: arguments, start => by
    have hlength : (packed (first :: arguments)).length = first.length + 1 + (packed arguments).length := by
      unfold packed
      rw [List.flatMap_cons, List.length_append, List.length_append, List.length_singleton]
    rw [List.cons_append, starts, starts_snoc, hlength, starts, List.cons_append]
    congr 3
    omega

theorem texts_packed : ∀ {arguments : List Text} {before unused : Text}, (∀ value ∈ arguments, 0 ∉ value) →
    (starts before.length arguments).map (fun start => cString ((before ++ (packed arguments ++ unused)).drop start)) = arguments
  | [], _, _, _ => rfl
  | value :: arguments, before, unused, h => by
    obtain ⟨hvalue, hrest⟩ := List.forall_mem_cons.mp h
    have hsplit : packed (value :: arguments) = value ++ [0] ++ packed arguments := List.flatMap_cons
    have ih := @texts_packed arguments (before ++ value ++ [0]) unused hrest
    have hmemory : before ++ (packed (value :: arguments) ++ unused) = before ++ value ++ [0] ++ (packed arguments ++ unused) := by
      rw [hsplit]
      simp only [List.append_assoc]
    rw [List.length_append, List.length_append, List.length_singleton] at ih
    rw [starts, List.map_cons, hmemory, ih]
    refine congrArg (· :: arguments) ?_
    rw [List.append_assoc, List.append_assoc, List.drop_left]
    have hnonzero : ∀ byte ∈ value, decide (byte ≠ 0) = true := by
      intro byte hbyte
      refine decide_eq_true fun hzero => hvalue ?_
      rwa [hzero] at hbyte
    unfold cString
    rw [List.takeWhile_append_of_pos hnonzero]
    exact List.append_nil _

structure Parsed (s : ParsedLine) (arguments : List Text) : Prop where
  holds : Holds s (packed arguments)
  starts : s.arguments = starts 0 arguments
  nonzero : ∀ value ∈ arguments, 0 ∉ value

theorem Parsed.texts (h : Parsed s arguments) : s.texts = arguments := by
  obtain ⟨unused, hstorage, -⟩ := h.holds.stored
  unfold ParsedLine.texts
  rw [h.starts, hstorage]
  exact @texts_packed arguments [] unused h.nonzero

theorem length_starts : ∀ {arguments : List Text} {start : Nat}, (starts start arguments).length = arguments.length
  | [], _ => rfl
  | _ :: _, _ => congrArg (· + 1) length_starts

def Room (bytes line : Text) : Prop :=
  bytes.length + line.length ≤ cuiMaxPayload ∨
    bytes.length + line.length ≤ cuiMaxPayload + 1 ∧ (line = [] ∨ ∃ tail, line = ascii ' ' :: tail)

theorem Room.dropWhile {bytes : Text} {character : UInt8} (h : Room bytes line) (hline : line.dropWhile (· = ascii ' ') = character :: rest) :
    bytes.length + (character :: rest).length ≤ cuiMaxPayload := by
  rw [← hline]
  have hle := (List.dropWhile_sublist (fun x => decide (x = ascii ' ')) (l := line)).length_le
  rcases h with h | ⟨h, rfl | ⟨tail, rfl⟩⟩
  · omega
  · cases hline
  · rw [List.dropWhile_cons, if_pos (decide_eq_true rfl)]
    have hle := (List.dropWhile_sublist (fun x => decide (x = ascii ' ')) (l := tail)).length_le
    rw [List.length_cons] at h
    omega

theorem scanLine_spec : ∀ {fuel : Nat} {line : Text} {s : ParsedLine} {arguments : List Text}, line.length ≤ fuel → Parsed s arguments →
    arguments.length ≤ cuiMaxArguments → Room (packed arguments) line →
    wp (scanLine fuel line)
      (fun _ t => ∃ more, Line line more ∧ (arguments ++ more).length ≤ cuiMaxArguments ∧ Parsed t (arguments ++ more))
      (fun _ t => (∀ more, Line line more → cuiMaxArguments < (arguments ++ more).length) ∧ t.overrun = false) s
  | 0, line, s, arguments, hfuel, h, hcount, hroom => by
    cases List.length_eq_zero_iff.mp (Nat.le_zero.mp hfuel)
    exact ⟨[], .done, by rwa [List.append_nil], by rwa [List.append_nil]⟩
  | fuel + 1, line, s, arguments, hfuel, h, hcount, hroom => by
    unfold scanLine
    rcases hline : line.dropWhile (· = ascii ' ') with - | ⟨character, tail⟩
    · have hempty : Line line [] := by
        rw [← line_dropWhile, hline]
        exact .done
      exact ⟨[], hempty, by rwa [List.append_nil], by rwa [List.append_nil]⟩
    have hcharacter : character ≠ ascii ' ' := by
      have hhead := List.head?_dropWhile_not (fun x => decide (x = ascii ' ')) line
      rw [hline] at hhead
      exact of_decide_eq_false hhead
    have hlength : (character :: tail).length ≤ line.length := by
      rw [← hline]
      exact (List.dropWhile_sublist _).length_le
    have hfits := hroom.dropWhile hline
    rw [List.length_cons] at hlength
    dsimp only
    rw [wp_bind, wp_get]
    by_cases hfull : s.arguments.length = cuiMaxArguments
    · rw [failIf_bind hfull]
      refine ⟨fun more hmore => ?_, h.holds.within⟩
      rw [h.starts, length_starts] at hfull
      rw [← line_dropWhile, hline] at hmore
      cases hmore with
      | space => exact absurd rfl hcharacter
      | argument =>
        rw [List.length_append, List.length_cons]
        omega
    rw [failIf_pass hfull, wp_bind, wp_modify, wp_bind]
    have hholds : Holds { s with arguments := s.arguments ++ [s.destination] } (packed arguments) :=
      ⟨h.holds.stored, h.holds.destination, h.holds.within⟩
    refine wp_mono (scanArgument_spec hholds hfits) (fun rest u ⟨value, hvalue, hu, hpointer⟩ => ?_) fun e u ⟨hno, hu⟩ => ?_
    · have hwidth := hvalue.length_le
      rw [List.length_cons] at hwidth hfits
      rw [wp_bind]
      refine wp_mono (putByte_spec hu (by rw [List.length_append]; omega)) (fun _ w ⟨hw, hsame⟩ => ?_) fun _ _ he => he
      rw [← packed_snoc] at hw
      have hparsed : Parsed w (arguments ++ [value]) := by
        refine ⟨hw, ?_, fun other hother => ?_⟩
        · rw [hsame, hpointer, starts_snoc, Nat.zero_add, ← h.starts, ← h.holds.destination]
        · rcases List.mem_append.mp hother with hother | hother
          · exact h.nonzero other hother
          · rw [List.mem_singleton.mp hother]
            exact hvalue.nonzero
      have hcount' : (arguments ++ [value]).length ≤ cuiMaxArguments := by
        rw [h.starts, length_starts] at hfull
        rw [List.length_append, List.length_singleton]
        omega
      have hroom' : Room (packed (arguments ++ [value])) rest := by
        refine Or.inr ⟨?_, hvalue.rest_eq⟩
        rw [packed_snoc, List.length_append, List.length_append, List.length_singleton]
        omega
      have hpassed := hvalue.passes hcharacter
      refine wp_mono (scanLine_spec (by omega) hparsed hcount' hroom') (fun _ t ⟨more, hmore, hall, ht⟩ => ?_) fun e t ⟨hno, ht⟩ => ?_
      · rw [List.append_assoc] at hall ht
        refine ⟨value :: more, ?_, hall, ht⟩
        rw [← line_dropWhile, hline]
        exact .argument hcharacter hvalue hmore
      · refine ⟨fun more hmore => ?_, ht⟩
        rw [← line_dropWhile, hline] at hmore
        cases hmore with
        | space => exact absurd rfl hcharacter
        | @argument _ _ value' rest' more _ hvalue' hmore =>
          obtain ⟨rfl, rfl⟩ := hvalue.unique hvalue'
          have hmany := hno more hmore
          rwa [List.append_assoc] at hmany
    · refine ⟨fun more hmore => ?_, hu⟩
      rw [← line_dropWhile, hline] at hmore
      cases hmore with
      | space => exact absurd rfl hcharacter
      | argument _ hvalue => exact absurd hvalue (hno _ _)

def escape : Text → Text
  | [] => []
  | character :: value =>
    if character = doubleQuote ∨ character = ascii '\\' then ascii '\\' :: character :: escape value else character :: escape value

/-- A line that spells the arguments, each of them quoted. -/
def quoteLine : List Text → Text
  | [] => []
  | [value] => doubleQuote :: (escape value ++ [doubleQuote])
  | value :: arguments => doubleQuote :: (escape value ++ doubleQuote :: ascii ' ' :: quoteLine arguments)

theorem argument_escape (h : Argument false line [] rest) : ∀ {value : Text}, (∀ character ∈ value, Allowed character) →
    Argument true (escape value ++ doubleQuote :: line) value rest
  | [], _ => .toggle h
  | character :: value, hvalue => by
    obtain ⟨hcharacter, hvalue⟩ := List.forall_mem_cons.mp hvalue
    have ih := argument_escape h hvalue
    unfold escape
    split
    · rename_i hspecial
      exact .escaped hspecial ih
    · rename_i hspecial
      rw [not_or] at hspecial
      exact .plain ⟨hcharacter, hspecial⟩ (fun hx => Bool.false_ne_true hx.1.symm) ih

theorem line_quoteLine : ∀ {arguments : List Text}, (∀ value ∈ arguments, ∀ character ∈ value, Allowed character) →
    Line (quoteLine arguments) arguments
  | [], _ => .done
  | [value], h => .argument (by decide) (.toggle (argument_escape .done (h value List.mem_cons_self))) .done
  | value :: other :: arguments, h => by
    obtain ⟨hvalue, hrest⟩ := List.forall_mem_cons.mp h
    exact .argument (by decide) (.toggle (argument_escape .space hvalue)) (.space (line_quoteLine hrest))

theorem Argument.nonzero_line (h : Argument quoted line value rest) : 0 ∈ line → 0 ∈ rest := by
  induction h with
  | done => exact id
  | space => exact id
  | toggle _ ih => exact fun hzero => ih ((List.mem_cons.mp hzero).resolve_left (by decide))
  | escaped hcharacter _ ih =>
    intro hzero
    have hrest := (List.mem_cons.mp hzero).resolve_left (by decide)
    refine ih ((List.mem_cons.mp hrest).resolve_left ?_)
    rcases hcharacter with rfl | rfl <;> decide
  | plain hplain _ _ ih =>
    refine fun hzero => ih ((List.mem_cons.mp hzero).resolve_left ?_)
    rintro rfl
    exact absurd hplain.1.1 (by decide)

theorem Line.nonzero (h : Line line arguments) : 0 ∉ line := by
  induction h with
  | done => exact List.not_mem_nil
  | space _ ih => exact List.not_mem_cons_of_ne_of_not_mem (by decide) ih
  | argument _ hvalue _ ih => exact fun hzero => ih (hvalue.nonzero_line hzero)

theorem parseLine_spec {input : Text} (hs : s.overrun = false) : wp (parseLine (some input))
    (fun _ t => (cString input).length ≤ cuiMaxPayload ∧
      ∃ arguments, Line (cString input) arguments ∧ arguments.length ≤ cuiMaxArguments ∧ Parsed t arguments)
    (fun _ t => ((cString input).length ≤ cuiMaxPayload →
      ∀ arguments, Line (cString input) arguments → cuiMaxArguments < arguments.length) ∧ t.overrun = false) s := by
  unfold parseLine
  dsimp only
  by_cases hlong : cuiMaxPayload < (cString input).length
  · rw [failIf_bind hlong]
    exact ⟨fun h => absurd hlong (not_lt.mpr h), hs⟩
  rw [failIf_pass hlong, wp_bind, wp_modify]
  have hzeros : ([] : Text).length + (List.replicate (cuiMaxPayload + 1) (0 : UInt8)).length = cuiMaxPayload + 1 := by
    rw [List.length_replicate, List.length_nil, Nat.zero_add]
  generalize List.replicate (cuiMaxPayload + 1) (0 : UInt8) = zeros at hzeros ⊢
  have hblank : Parsed { s with storage := zeros, arguments := [], destination := 0 } [] :=
    ⟨⟨⟨zeros, rfl, hzeros⟩, rfl, hs⟩, rfl, nofun⟩
  refine wp_mono (scanLine_spec le_rfl hblank (Nat.zero_le _) (Or.inl ?_)) (fun _ t ⟨arguments, hline, hcount, ht⟩ => ?_)
    fun e t ⟨hno, ht⟩ => ?_
  · show 0 + _ ≤ _
    omega
  · exact ⟨not_lt.mp hlong, arguments, hline, hcount, ht⟩
  · exact ⟨fun _ arguments hline => hno arguments hline, ht⟩

/-- The parser accepts the lines of the language that keep within the limits and returns their arguments, it never writes behind the
    storage, and it reads back quoted arguments. -/
theorem parseLine_exact (hs : s.overrun = false) :
    (∀ input, ((parseLine (some input) s).1 = .ok () ↔ (cString input).length ≤ cuiMaxPayload ∧
        ∃ arguments, Line (cString input) arguments ∧ arguments.length ≤ cuiMaxArguments) ∧
      ((parseLine (some input) s).1 = .ok () → Line (cString input) (parseLine (some input) s).2.texts) ∧
      (parseLine (some input) s).2.overrun = false) ∧
    ∀ arguments, arguments.length ≤ cuiMaxArguments → (∀ value ∈ arguments, ∀ character ∈ value, Allowed character) →
      (quoteLine arguments).length ≤ cuiMaxPayload →
      (parseLine (some (quoteLine arguments)) s).1 = .ok () ∧ (parseLine (some (quoteLine arguments)) s).2.texts = arguments := by
  have hparses : ∀ input, ((parseLine (some input) s).1 = .ok () ↔ (cString input).length ≤ cuiMaxPayload ∧
        ∃ arguments, Line (cString input) arguments ∧ arguments.length ≤ cuiMaxArguments) ∧
      ((parseLine (some input) s).1 = .ok () → Line (cString input) (parseLine (some input) s).2.texts) ∧
      (parseLine (some input) s).2.overrun = false := by
    intro input
    have hspec := @parseLine_spec s input hs
    rcases hrun : parseLine (some input) s with ⟨e | _, t⟩
    · obtain ⟨hno, hwithin⟩ := wp_error hspec hrun
      refine ⟨⟨nofun, fun ⟨hshort, arguments, hline, hcount⟩ => ?_⟩, nofun, hwithin⟩
      exact absurd hcount (not_le.mpr (hno hshort arguments hline))
    · obtain ⟨hshort, arguments, hline, hcount, ht⟩ := wp_ok hspec hrun
      refine ⟨⟨fun _ => ⟨hshort, arguments, hline, hcount⟩, fun _ => rfl⟩, fun _ => ?_, ht.holds.within⟩
      rw [ht.texts]
      exact hline
  refine ⟨hparses, fun arguments hcount hallowed hshort => ?_⟩
  have hline := line_quoteLine hallowed
  obtain ⟨haccepts, hreads, -⟩ := hparses (quoteLine arguments)
  rw [cString_eq hline.nonzero] at haccepts hreads
  have hok := haccepts.mpr ⟨hshort, arguments, hline, hcount⟩
  exact ⟨hok, (hreads hok).unique hline⟩

/-- An argument with a space, a quote and a backslash, and an empty one. -/
theorem parseLine_exact_two : (parseLine (some (quoteLine ["a \"b\\".toList.map ascii, []])) ⟨[], [], 0, false⟩).2.texts =
    ["a \"b\\".toList.map ascii, []] :=
  ((parseLine_exact rfl).2 ["a \"b\\".toList.map ascii, []] (by decide) (by decide +kernel) (by decide +kernel)).2

end Cui
end InferenceOS
