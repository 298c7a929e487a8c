import Acu.Core.Strip
import Acu.Inih.Calls

/-!
# Comments between the lines

A comment or an empty line changes nothing for the lines around it, wherever it stands.
Of a line that does not fit the array this holds for the first 199 bytes; what follows
them is read as a line of its own.
-/

namespace Acu.Inih

open Acu.Core Acu.Core.CMemory

/-- The bytes of one call of `fgets`: a line that fits with its line feed, or a full array. -/
def Piece (p : Bytes) : Prop :=
  (∃ l, 10 ∉ l ∧ l.length < INI_MAX_LINE - 1 ∧ p = l ++ [10]) ∨
    (10 ∉ p ∧ p.length = INI_MAX_LINE - 1)

/-- Blanks, or a comment behind blanks. -/
def Comment (p : Bytes) : Prop :=
  ∀ c ∈ (lskip (p.takeWhile (· ≠ 0))).head?, c = 59 ∨ c = 35

/-! ## Events around a line -/

namespace Context

theorem events_append (n : Nat) (c : Context) (ls ms : List Bytes) :
    c.events n (ls ++ ms) = c.events n ls ++ (c.afterAll n ls).events (n + ls.length) ms := by
  induction ls generalizing n c with
  | nil => rfl
  | cons l ls ih =>
      rw [List.cons_append, events, events, ih, afterAll, List.cons_append, List.length_cons,
        Nat.add_right_comm, Nat.add_assoc n]

end Context

/-- Only in the first line a byte order mark is looked for. -/
theorem readLine_lineno {m n : Nat} (prev_name : Bytes) {line : Bytes}
    (h : m = n ∨ ¬ BOM <+: line ∨ m ≠ 1 ∧ n ≠ 1) :
    readLine m prev_name line = readLine n prev_name line := by
  have hmark : (decide (m = 1) && BOM.isPrefixOf (line.takeWhile (· ≠ 0))) =
      (decide (n = 1) && BOM.isPrefixOf (line.takeWhile (· ≠ 0))) := by
    rcases h with rfl | hline | ⟨hm, hn⟩
    · rfl
    · have htext : BOM.isPrefixOf (line.takeWhile (· ≠ 0)) = false := by
        rw [Bool.eq_false_iff]
        intro hpre
        exact hline ((List.isPrefixOf_iff_prefix.mp hpre).trans (List.takeWhile_prefix _))
      rw [htext, Bool.and_false, Bool.and_false]
    · rw [decide_eq_false hm, decide_eq_false hn]
  simp only [readLine, hmark]

theorem events_lineno {m n : Nat} (hm : m ≠ 0) (hn : n ≠ 0) (c : Context) (ls : List Bytes) :
    c.events m ls = c.events n ls := by
  induction ls generalizing m n c with
  | nil => rfl
  | cons l ls ih =>
      have hline : readLine (m + 1) c.prev_name l = readLine (n + 1) c.prev_name l :=
        readLine_lineno c.prev_name (.inr (.inr ⟨by omega, by omega⟩))
      rw [Context.events, Context.events, hline,
        ih (Nat.succ_ne_zero m) (Nat.succ_ne_zero n)]

/-- Lines that begin a file read like any others without the mark. -/
theorem events_second {file : Bytes} (h : ¬ BOM <+: file) (c : Context) :
    c.events 0 (lines file) = c.events 1 (lines file) := by
  by_cases hfile : file = []
  · rw [hfile]
    rfl
  · have hfirst : ¬ BOM <+: (fgets (INI_MAX_LINE - 1) file).1 := by
      intro hpre
      apply h
      rw [← fgets_append (INI_MAX_LINE - 1) file]
      exact hpre.trans (List.prefix_append _ _)
    have hsame := readLine_lineno (m := 0 + 1) (n := 1 + 1) c.prev_name (.inr (.inl hfirst))
    rw [lines, fgetsAll_of_ne_nil (by decide) hfile, Context.events, Context.events, hsame,
      events_lineno (Nat.succ_ne_zero 0) (Nat.succ_ne_zero 1)]

theorem lines_piece {p : Bytes} (hp : Piece p) (rest : Bytes) :
    lines (p ++ rest) = p :: lines rest := by
  rcases hp with ⟨l, hl, hlength, rfl⟩ | ⟨hp, hlength⟩
  · rw [List.append_assoc]
    exact fgetsAll_line hl hlength rest
  · exact fgetsAll_full (by decide) hp hlength rest

/-! ## Reading a comment -/

/-- Blanks at the end of a text do not change how it begins. -/
theorem lskip_rstrip_head (text : Bytes) :
    (lskip (rstrip text)).head? = (lskip text).head? := by
  obtain ⟨ws, m, rfl, hws, hm, hskip⟩ := blanks_split isSpace text
  cases m with
  | nil =>
      have hnil : rstrip (ws ++ []) = [] := by
        rw [rstrip, List.rdropWhile_eq_nil_iff, List.append_nil]
        exact hws
      rw [hnil, lskip, lskip, hskip]
      rfl
  | cons a m =>
      have ha := hm a rfl
      have hstrip : rstrip (ws ++ a :: m) = ws ++ a :: rstrip m := rdropWhile_append_cons ha ws m
      rw [hstrip, lskip, lskip, hskip, dropWhile_blanks hws (by simpa using ha)]
      rfl

theorem readText_comment {moved : Bool} {prev_name start : Bytes}
    (h : ∀ c ∈ start.head?, c = 59 ∨ c = 35) : readText moved prev_name start = .ignored := by
  unfold readText
  cases start with
  | nil => simp
  | cons c start =>
      have hmark : (c :: start).head? = some 59 ∨ (c :: start).head? = some 35 := by
        rcases h c rfl with rfl | rfl
        · exact .inl rfl
        · exact .inr rfl
      rw [if_pos hmark]

theorem readLine_comment {p : Bytes} (hp : Comment p) (lineno : Nat) (prev_name : Bytes) :
    readLine lineno prev_name p = .ignored := by
  have hmark : BOM.isPrefixOf (p.takeWhile (· ≠ 0)) = false := by
    rw [Bool.eq_false_iff]
    intro hpre
    obtain ⟨rest, hrest⟩ := List.isPrefixOf_iff_prefix.mp hpre
    have hskip : lskip (p.takeWhile (· ≠ 0)) = BOM ++ rest := by
      rw [← hrest, lskip, BOM, List.cons_append, List.dropWhile_cons_of_neg (by decide)]
    have hfirst := hp 0xEF (by rw [hskip]; rfl)
    exact absurd hfirst (by decide)
  unfold readLine
  simp only [hmark, Bool.and_false, Bool.false_or, Bool.false_eq_true, if_false]
  apply readText_comment
  rw [lskip_rstrip_head]
  exact hp

/-! ## A comment is inserted -/

section Insert

variable {f₁ f₂ p : Bytes}

/-- The other lines are read as before. -/
theorem fileEvents_insert (hf₁ : EndsLine f₁) (hp : Piece p) (hcomment : Comment p)
    (hbom : f₁ = [] → ¬ BOM <+: f₂) :
    ∃ before after, fileEvents (f₁ ++ f₂) = before ++ after ∧
      fileEvents (f₁ ++ (p ++ f₂)) = before ++ .quiet :: after := by
  obtain ⟨c, hc⟩ : ∃ c, c = Context.start.afterAll 0 (lines f₁) := ⟨_, rfl⟩
  obtain ⟨n, hn⟩ : ∃ n, n = 0 + (lines f₁).length := ⟨_, rfl⟩
  have hsplit (rest : Bytes) :
      fileEvents (f₁ ++ rest) = fileEvents f₁ ++ c.events n (lines rest) := by
    rw [fileEvents, lines, fgetsAll_append (by decide) hf₁, Context.events_append, hc, hn]
    rfl
  refine ⟨fileEvents f₁, c.events n (lines f₂), hsplit f₂, ?_⟩
  rw [hsplit, lines_piece hp, Context.events, readLine_comment hcomment]
  congr 2
  by_cases hzero : n = 0
  · have hnil : f₁ = [] := by
      by_contra hne
      rw [lines, fgetsAll_of_ne_nil (by decide) hne, List.length_cons] at hn
      omega
    rw [hzero]
    exact (events_second (hbom hnil) c).symm
  · exact events_lineno (Nat.succ_ne_zero n) hzero c _

variable {σ : Type} (handler : Handler σ) (user : σ)

theorem feedAll_insert (before after : List Event) :
    feedAll handler user (before ++ .quiet :: after) = feedAll handler user (before ++ after) := by
  simp only [feedAll, List.foldl_append, List.foldl_cons, feed]

/-- Whether a line is in error is decided by the lines before it. -/
theorem inError_append_right {before after : List Event} {k : Nat} :
    InError handler user (before ++ after) (before.length + k) ↔
      InError handler (feedAll handler user before) after k := by
  induction before generalizing user with
  | nil => simp [feedAll]
  | cons e before ih =>
      rw [List.cons_append, List.length_cons, Nat.add_right_comm, inError_succ, ih]
      rfl

theorem inError_append_left {before after : List Event} {k : Nat} (h : k < before.length) :
    InError handler user (before ++ after) k ↔ InError handler user before k := by
  unfold InError
  rw [List.getElem?_append_left h, List.take_append_of_le_length (Nat.le_of_lt h)]

theorem error_insert (before after : List Event) :
    (∀ k, ¬ InError handler user (before ++ .quiet :: after) k) ↔
      ∀ k, ¬ InError handler user (before ++ after) k := by
  have hquiet : ¬ InError handler (feedAll handler user before) (.quiet :: after) 0 := by
    rw [inError_zero]
    exact Bool.false_ne_true
  constructor
  · intro h k
    by_cases hk : k < before.length
    · rw [inError_append_left handler user hk]
      exact (inError_append_left handler user hk).not.mp (h k)
    · obtain ⟨j, rfl⟩ := Nat.exists_eq_add_of_le (Nat.not_lt.mp hk)
      rw [inError_append_right]
      have hlater := h (before.length + (j + 1))
      rwa [inError_append_right, inError_succ] at hlater
  · intro h k
    by_cases hk : k < before.length
    · rw [inError_append_left handler user hk]
      exact (inError_append_left handler user hk).not.mp (h k)
    · obtain ⟨j, rfl⟩ := Nat.exists_eq_add_of_le (Nat.not_lt.mp hk)
      rw [inError_append_right]
      cases j with
      | zero => exact hquiet
      | succ j =>
          have hearlier := h (before.length + j)
          rwa [inError_append_right] at hearlier

/-- Whatever the handler: it ends with the same data, and the file is as free of errors as it
was before. -/
theorem ini_parse_file_insert (hf₁ : EndsLine f₁) (hp : Piece p) (hcomment : Comment p)
    (hbom : f₁ = [] → ¬ BOM <+: f₂) :
    (ini_parse_file handler (f₁ ++ (p ++ f₂)) user).1 =
        (ini_parse_file handler (f₁ ++ f₂) user).1 ∧
      ((ini_parse_file handler (f₁ ++ (p ++ f₂)) user).2 = 0 ↔
        (ini_parse_file handler (f₁ ++ f₂) user).2 = 0) := by
  obtain ⟨before, after, hold, hnew⟩ := fileEvents_insert hf₁ hp hcomment hbom
  rw [ini_parse_file_data, ini_parse_file_data, ini_parse_file_clean, ini_parse_file_clean, hold,
    hnew, feedAll_insert]
  exact ⟨rfl, error_insert handler user before after⟩

end Insert

/-- A handler that keeps names and values. -/
def noting : Handler Bytes := fun kept _ name value => (kept ++ (name ++ value), 1)

theorem remark_inserted :
    (ini_parse_file noting (ascii "[App]\n" ++ (ascii " ; gate = 2\n" ++ ascii "DV_NO = 6\n"))
        []).1 = (ini_parse_file noting (ascii "[App]\n" ++ ascii "DV_NO = 6\n") []).1 ∧
      ((ini_parse_file noting
          (ascii "[App]\n" ++ (ascii " ; gate = 2\n" ++ ascii "DV_NO = 6\n")) []).2 = 0 ↔
        (ini_parse_file noting (ascii "[App]\n" ++ ascii "DV_NO = 6\n") []).2 = 0) :=
  ini_parse_file_insert noting [] (.inr ⟨ascii "[App]", by decide⟩)
    (.inl ⟨ascii " ; gate = 2", by decide, by decide, by decide⟩) (by rintro _ ⟨⟩; decide)
    (fun h => absurd h (by decide))

end Acu.Inih
