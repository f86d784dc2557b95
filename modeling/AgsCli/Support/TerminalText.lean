import AgsCli.Library.Removal
import AgsCli.Support.Strings
import Mathlib.Data.List.TakeWhile

/-! # Text for a terminal

What `strip_terminal_control_sequences` leaves of a text, for every text. -/
namespace TerminalText

open Strings Removal

/-- The escape sequences the pattern names: CSI, and OSC ended by a bell or a string terminator. -/
inductive Sequence : List Char → Prop
  | csi {codes : List Char} {final : Char} :
      (∀ c ∈ codes, (isAsciiDigit c || c = ';') = true) → isAsciiLetter final = true →
        Sequence ('\x1b' :: '[' :: (codes ++ [final]))
  | oscBell {text : List Char} : (∀ c ∈ text, c ≠ '\x07' ∧ c ≠ '\x1b') →
      Sequence ('\x1b' :: ']' :: (text ++ ['\x07']))
  | oscString {text : List Char} : (∀ c ∈ text, c ≠ '\x07' ∧ c ≠ '\x1b') →
      Sequence ('\x1b' :: ']' :: (text ++ ['\x1b', '\\']))

/-- The Unicode control characters: C0, DEL and C1. -/
def isControl (c : Char) : Bool := c.toNat < 0x20 || (0x7f ≤ c.toNat && c.toNat ≤ 0x9f)

def isC1 (c : Char) : Bool := 0x80 ≤ c.toNat && c.toNat ≤ 0x9f

def isPrintable (c : Char) : Bool := !isControl c

def keeps (c : Char) : Bool := c = '\n' || c = '\t' || (' ' ≤ c && c ≠ '\x7f')

/-- A text made fit for a terminal: no control character but newline and tab, nothing more to
remove, and the printable characters outside escape sequences in their order. -/
structure Sanitised (value out : String) : Prop where
  clean : ∀ c ∈ out.toList, isControl c = true → c = '\n' ∨ c = '\t'
  idempotent : stripTerminalControlSequences out = out
  kept : ∀ u, Outside Sequence value.toList u →
    out.toList.filter isPrintable = u.filter isPrintable

section Pattern

theorem takeWhile_append_of {p : Char → Bool} {l : List Char} (h : ∀ c ∈ l, p c = true) {d : Char}
    (hd : p d = false) (t : List Char) : (l ++ d :: t).takeWhile p = l := by
  rw [List.takeWhile_append_of_pos h, List.takeWhile_cons_of_neg (by simp [hd]), List.append_nil]

theorem eq_takeWhile_append_drop (p : Char → Bool) (l : List Char) :
    l = l.takeWhile p ++ l.drop (l.takeWhile p).length := by
  conv_lhs => rw [← List.take_append_drop (l.takeWhile p).length l]
  rw [List.prefix_iff_eq_take.mp (List.takeWhile_prefix p) |>.symm]

theorem not_code_of_letter {c : Char} (h : isAsciiLetter c = true) :
    (isAsciiDigit c || c = ';') = false := by
  have hletter : (97 ≤ c.toNat ∧ c.toNat ≤ 122) ∨ (65 ≤ c.toNat ∧ c.toNat ≤ 90) := by
    simpa [isAsciiLetter, isAsciiLower, isAsciiUpper, Char.le_def, UInt32.le_iff_toNat_le] using h
  have hdigit : isAsciiDigit c = false := by
    by_contra hne
    have hrange : 48 ≤ c.toNat ∧ c.toNat ≤ 57 := by
      simpa [isAsciiDigit, Char.le_def, UInt32.le_iff_toNat_le] using hne
    omega
  have hsemi : c ≠ ';' := by
    rintro rfl
    revert hletter
    decide
  simp [hdigit, hsemi]

theorem ansiRule_sequence {m : List Char} (h : Sequence m) (t : List Char) :
    ansiRule (m ++ t) = some ([], m.length) := by
  cases h with
  | @csi codes final hcodes hfinal =>
    have htake : (codes ++ final :: t).takeWhile (fun c => isAsciiDigit c || c = ';') = codes :=
      takeWhile_append_of hcodes (not_code_of_letter hfinal) t
    simp only [List.cons_append, List.append_assoc, List.nil_append, ansiRule, htake,
      List.drop_left, hfinal, if_true, List.length_cons, List.length_append, List.length_nil]
  | @oscBell text htext =>
    have htake : (text ++ '\x07' :: t).takeWhile (fun c => c ≠ '\x07' && c ≠ '\x1b') = text :=
      takeWhile_append_of (by simpa using htext) (by decide) t
    simp only [List.cons_append, List.append_assoc, List.nil_append, ansiRule]
    rw [htake, List.drop_left]
    simp
  | @oscString text htext =>
    have htake : (text ++ '\x1b' :: '\\' :: t).takeWhile (fun c => c ≠ '\x07' && c ≠ '\x1b') =
        text := takeWhile_append_of (by simpa using htext) (by decide) _
    simp only [List.cons_append, List.append_assoc, List.nil_append, ansiRule]
    rw [htake, List.drop_left]
    simp

theorem sequence_of_ansiRule {s : List Char} {r : List Char × Nat} (h : ansiRule s = some r) :
    ∃ m t, s = m ++ t ∧ Sequence m ∧ r = ([], m.length) := by
  unfold ansiRule at h
  split at h
  · next rest =>
    extract_lets codes at h
    have hrest : rest = codes ++ rest.drop codes.length := eq_takeWhile_append_drop _ rest
    have hcodes : ∀ c ∈ codes, (isAsciiDigit c || c = ';') = true := by
      intro c hc
      have hcode := List.mem_takeWhile_imp hc
      exact hcode
    split at h
    · next final t hdrop =>
      split at h
      · next hfinal =>
        cases h
        rw [hdrop] at hrest
        refine ⟨'\x1b' :: '[' :: (codes ++ [final]), t, ?_, .csi hcodes hfinal, ?_⟩
        · rw [hrest]
          simp
        · simp
      · cases h
    · cases h
  · next rest =>
    extract_lets text at h
    have hrest : rest = text ++ rest.drop text.length := eq_takeWhile_append_drop _ rest
    have htext : ∀ c ∈ text, c ≠ '\x07' ∧ c ≠ '\x1b' := by
      intro c hc
      simpa using List.mem_takeWhile_imp hc
    split at h
    · next t hdrop =>
      cases h
      rw [hdrop] at hrest
      refine ⟨'\x1b' :: ']' :: (text ++ ['\x07']), t, ?_, .oscBell htext, ?_⟩
      · rw [hrest]
        simp
      · simp
    · next t hdrop =>
      cases h
      rw [hdrop] at hrest
      refine ⟨'\x1b' :: ']' :: (text ++ ['\x1b', '\\']), t, ?_, .oscString htext, ?_⟩
      · rw [hrest]
        simp
      · simp
    · cases h
  · cases h

theorem ansiRule_eq_none {s : List Char} (h : ∀ m t, s = m ++ t → ¬Sequence m) :
    ansiRule s = none := by
  cases hrule : ansiRule s with
  | none => rfl
  | some r =>
    obtain ⟨m, t, heq, hm, -⟩ := sequence_of_ansiRule hrule
    exact absurd hm (h m t heq)

theorem esc_mem {m : List Char} (h : Sequence m) : '\x1b' ∈ m := by
  cases h <;> exact List.mem_cons_self

end Pattern

section Removal

theorem rewriteAll_skip (rule : List Char → Option (List Char × Nat)) (m s : List Char) :
    rewriteAll rule m.length (m ++ s) = rewriteAll rule 0 s := by
  induction m with
  | nil => rfl
  | cons c m ih =>
    rw [List.cons_append, List.length_cons, rewriteAll]
    exact ih

theorem rewriteAll_removes : Removes Sequence (rewriteAll ansiRule 0) := by
  refine ⟨rfl, fun m s hm => ?_, fun c s hno => ?_⟩
  · have hrule := ansiRule_sequence hm s
    cases m with
    | nil => cases hm
    | cons c m =>
      rw [List.cons_append] at hrule ⊢
      rw [rewriteAll, hrule]
      exact rewriteAll_skip ansiRule m s
  · rw [rewriteAll, ansiRule_eq_none hno]

theorem outside_iff {s u : List Char} : Outside Sequence s u ↔ u = rewriteAll ansiRule 0 s :=
  rewriteAll_removes.outside_iff fun h => nomatch h

theorem toList_strip (value : String) : (stripTerminalControlSequences value).toList =
    (rewriteAll ansiRule 0 value.toList).filter keeps := by
  unfold stripTerminalControlSequences
  exact String.toList_ofList

end Removal

section Characters

theorem eq_iff_toNat {c d : Char} : c = d ↔ c.toNat = d.toNat :=
  ⟨congrArg Char.toNat, fun h => Char.toNat_inj.mp h⟩

theorem keeps_iff {c : Char} :
    keeps c = true ↔ c.toNat = 10 ∨ c.toNat = 9 ∨ (32 ≤ c.toNat ∧ c.toNat ≠ 127) := by
  simp [keeps, eq_iff_toNat, Char.le_def, UInt32.le_iff_toNat_le, or_assoc]

theorem isControl_iff_toNat {c : Char} :
    isControl c = true ↔ c.toNat < 32 ∨ (127 ≤ c.toNat ∧ c.toNat ≤ 159) := by
  simp [isControl]

theorem isC1_iff_toNat {c : Char} : isC1 c = true ↔ 128 ≤ c.toNat ∧ c.toNat ≤ 159 := by
  simp [isC1]

theorem keeps_of_isC1 {c : Char} (h : isC1 c = true) : keeps c = true := by
  rw [isC1_iff_toNat] at h
  rw [keeps_iff]
  omega

theorem keeps_of_isPrintable {c : Char} (h : isPrintable c = true) : keeps c = true := by
  have hcontrol : ¬isControl c = true := by simpa [isPrintable] using h
  rw [isControl_iff_toNat] at hcontrol
  rw [keeps_iff]
  omega

/-- Among the characters the filter lets through, C1 are the control characters. -/
theorem isControl_iff {c : Char} (h : keeps c = true) :
    (isControl c = true → c = '\n' ∨ c = '\t') ↔ isC1 c = false := by
  have hnewline : c = '\n' ↔ c.toNat = 10 := eq_iff_toNat
  have htab : c = '\t' ↔ c.toNat = 9 := eq_iff_toNat
  rw [keeps_iff] at h
  rw [← Bool.not_eq_true, isC1_iff_toNat, isControl_iff_toNat, hnewline, htab]
  omega

end Characters

section Results

/-- Stripping twice is stripping once: no escape character is left to start a sequence. -/
theorem strip_strip (value : String) :
    stripTerminalControlSequences (stripTerminalControlSequences value) =
      stripTerminalControlSequences value := by
  apply String.toList_inj.mp
  have hesc : '\x1b' ∉ (stripTerminalControlSequences value).toList := by
    rw [toList_strip]
    intro hmem
    have hkept := (List.mem_filter.mp hmem).2
    revert hkept
    decide
  rw [toList_strip, rewriteAll_removes.eq_self fun m hm => ⟨_, esc_mem hm, hesc⟩, toList_strip,
    List.filter_filter]
  simp

theorem printable_kept (value : String) {u : List Char} (hu : Outside Sequence value.toList u) :
    (stripTerminalControlSequences value).toList.filter isPrintable = u.filter isPrintable := by
  rw [outside_iff] at hu
  rw [toList_strip, ← hu, List.filter_filter]
  refine List.filter_congr fun c _ => ?_
  cases hc : isPrintable c with
  | false => rfl
  | true => rw [keeps_of_isPrintable hc]; rfl

/-- Stripping makes a text fit for a terminal exactly when it has no C1 control character outside
its escape sequences. -/
theorem sanitised_iff (value : String) :
    Sanitised value (stripTerminalControlSequences value) ↔
      ∀ u, Outside Sequence value.toList u → ∀ c ∈ u, isC1 c = false := by
  constructor
  · intro h u hu c hc
    rw [outside_iff] at hu
    by_contra hne
    have hc1 : isC1 c = true := by simpa using hne
    have hkeeps := keeps_of_isC1 hc1
    have hout : c ∈ (stripTerminalControlSequences value).toList := by
      rw [toList_strip, ← hu]
      exact List.mem_filter.mpr ⟨hc, hkeeps⟩
    exact hne ((isControl_iff hkeeps).mp (h.clean c hout))
  · intro h
    refine ⟨fun c hc => ?_, strip_strip value, fun u hu => printable_kept value hu⟩
    rw [toList_strip] at hc
    obtain ⟨hmem, hkeeps⟩ := List.mem_filter.mp hc
    exact (isControl_iff hkeeps).mpr (h _ (outside_iff.mpr rfl) c hmem)

/-- An 8-bit CSI introducer reaches the terminal. -/
theorem eight_bit_csi_kept :
    ¬Sanitised "\u009b31mred" (stripTerminalControlSequences "\u009b31mred") := by
  intro h
  have hcsi := h.clean '\u009b' (by decide) (by decide)
  revert hcsi
  decide

end Results

end TerminalText
