import Acu.Web.ReplyHeader

/-!
# A reply in several segments

`WebApi::parsing()` and that of `ServerTimeGet` go on from the header to the tag of the
result in whatever the first `recv` brought. They read the result when the first segment
reaches as far.
-/

namespace Acu.Web

open Acu.Core Acu.Core.CMemory

/-! ## The scan of the contents -/

/-- What `WebApi::parsing()` does behind `parsingHeader`. -/
def booleanOf (h : Header) : Option Bool := do
  let p ← ← strstr h.buf h.startContent (ascii "\n")
  let p ← ← strstr h.buf p (ascii "boolean")
  let p ← ← strstr h.buf p (ascii ">")
  let c ← h.buf[p + 1]?
  some (c == 116)

/-- What that of `ServerTimeGet` does. -/
def dateTimeOf (h : Header) : Option Bytes := do
  let p ← ← strstr h.buf h.startContent (ascii "\n")
  let p ← ← strstr h.buf p (ascii "dateTime")
  let p ← ← strstr h.buf p (ascii ">")
  let start := p + 1
  let p ← ← strstr h.buf start (ascii "<")
  let buf ← store h.buf p 0
  let text ← stringAt buf start
  some (text ++ [0])

/-- The call on a memory that holds the first segment. -/
def afterScan {α : Type} (read : Header → Option α) (buf : Bytes) (readlen : Nat) :
    Option (Option α) :=
  (scanHeader buf readlen).bind fun
    | none => some none
    | some h => (read h).map some

section Received

variable {α : Type} (stack : CharArray RCVHEADERBUFSIZE) {bytes : Bytes} (hne : bytes ≠ [])
  (hlt : bytes.length < RCVHEADERBUFSIZE) (rs : List Recv)

include hne hlt

theorem afterHeader_received (read : Header → Option α) :
    afterHeader stack (fun h _ => read h) (.data bytes :: rs) =
      afterScan read (bytes ++ stack.val.drop bytes.length) bytes.length := by
  rw [afterHeader, FirstRecv.parsingHeader_received stack hne hlt, afterScan]
  cases scanHeader (bytes ++ stack.val.drop bytes.length) bytes.length with
  | none => rfl
  | some o =>
      cases o with
      | none => rfl
      | some h => rfl

theorem parsing_received : WebApi.parsing stack (.data bytes :: rs) =
    afterScan booleanOf (bytes ++ stack.val.drop bytes.length) bytes.length :=
  afterHeader_received stack hne hlt rs booleanOf

theorem serverTime_received : ServerTimeGet.parsing stack (.data bytes :: rs) =
    afterScan dateTimeOf (bytes ++ stack.val.drop bytes.length) bytes.length :=
  afterHeader_received stack hne hlt rs dateTimeOf

end Received

/-! ## What is scanned on the way -/

/-- The header as it is scanned, with the three letters that are taken for the rest of it. -/
inductive HeadFront : Bytes → Prop where
  | intro {version code before value gap : Bytes} {skipped : UInt8}
      (version_plain : 32 ∉ version ∧ 0 ∉ version) (code_plain : 32 ∉ code ∧ 0 ∉ code)
      (status : atoi code = 200) (before_plain : ¬ lengthKey <:+: before ∧ 0 ∉ before)
      (value_plain : 13 ∉ value ∧ 0 ∉ value) (three : gap.length = 3) :
      HeadFront (version ++ 32 :: (code ++ 32 :: (before ++ (lengthKey ++
        skipped :: (value ++ 13 :: gap)))))

/-- The contents up to the end of the tag: a line, the name, and what stands in the tag. -/
inductive TagFront (tag : Bytes) : Bytes → Prop where
  | intro {line gap inside : Bytes} (line_plain : 10 ∉ line ∧ 0 ∉ line)
      (gap_plain : ¬ tag <:+: gap ∧ 0 ∉ gap) (inside_plain : 62 ∉ inside ∧ 0 ∉ inside) :
      TagFront tag (line ++ 10 :: (gap ++ (tag ++ (inside ++ [62]))))

/-- Everything up to the end of the tag. -/
def Front (tag front : Bytes) : Prop :=
  ∃ head inner, front = head ++ inner ∧ HeadFront head ∧ TagFront tag inner

theorem HeadFront.of_scan {m : Bytes} {readlen : Nat} {h : Header}
    (hscan : scanHeader m readlen = some (some h)) (hle : h.startContent ≤ m.length) :
    ∃ head contents, m = head ++ contents ∧ HeadFront head ∧ h.startContent = head.length := by
  cases scanHeader_iff.mp hscan with
  | accepted line hcode length =>
      rename_i version code rest before value behind skipped
      have hmark : (10 : UInt8) ∉ nameKey := by decide
      obtain ⟨hrest, hbefore⟩ := (first_mark_iff hmark).mp (lengthKey_eq ▸ length.first)
      have hm : m = version ++ 32 :: (code ++ 32 :: (before ++ (lengthKey ++
          skipped :: (value ++ 13 :: behind)))) := by
        rw [line.eq, hrest, lengthKey_eq]
      have hgap : 3 ≤ behind.length := by
        rw [hm] at hle
        simp only [headerOf, List.length_append, List.length_cons, List.length_nil] at hle
        omega
      obtain ⟨gap, contents, rfl, hthree⟩ := exists_split hgap
      refine ⟨version ++ 32 :: (code ++ 32 :: (before ++ (lengthKey ++
        skipped :: (value ++ 13 :: gap)))), contents, ?_, ?_, ?_⟩
      · rw [hm]
        simp
      · exact .intro line.version line.code hcode ⟨lengthKey_eq ▸ hbefore, length.before⟩
          length.value hthree
      · simp only [headerOf, List.length_append, List.length_cons, List.length_nil, hthree]
        omega

theorem HeadFront.scan {head : Bytes} (h : HeadFront head) (contents : Bytes) (readlen : Nat) :
    ∃ hd, scanHeader (head ++ contents) readlen = some (some hd) ∧
      hd.startContent = head.length := by
  cases h with
  | intro version_plain code_plain status before_plain value_plain three =>
      rename_i version code before value gap skipped
      have hmark : (10 : UInt8) ∉ nameKey := by decide
      have hline : StatusLine (version ++ 32 :: (code ++ 32 :: (before ++ (lengthKey ++
          skipped :: (value ++ 13 :: gap)))) ++ contents) version code
            (before ++ (lengthKey ++ skipped :: (value ++ 13 :: (gap ++ contents)))) :=
        ⟨by simp, version_plain, code_plain⟩
      have hlength : LengthLine (before ++ (lengthKey ++ skipped ::
          (value ++ 13 :: (gap ++ contents)))) before skipped value (gap ++ contents) := by
        refine ⟨?_, before_plain.2, value_plain⟩
        rw [lengthKey_eq]
        exact first_of_mark hmark (lengthKey_eq ▸ before_plain.1) _
      refine ⟨_, scanHeader_iff.mpr (.accepted hline status hlength), ?_⟩
      simp only [headerOf, List.length_append, List.length_cons, List.length_nil, three]
      omega

/-- The contents behind the header in its buffer. -/
theorem buf_split {head contents : Bytes} {readlen : Nat} {h : Header}
    (hscan : scanHeader (head ++ contents) readlen = some (some h))
    (hstart : h.startContent = head.length) :
    ∃ cut, h.buf = cut ++ contents ∧ cut.length = h.startContent := by
  obtain ⟨hlen, -, hdrop⟩ := (scanHeader_iff.mp hscan).contents
  have hle : h.startContent ≤ h.buf.length := by
    rw [hlen, hstart, List.length_append]
    omega
  obtain ⟨cut, rest, hbuf, hcut⟩ := exists_split hle
  rw [hbuf, ← hcut, List.drop_left, hcut, hstart, List.drop_left] at hdrop
  exact ⟨cut, by rw [hbuf, hdrop], hcut⟩

/-- The name of an element: its first letter comes once, and no mark of the scan at all. -/
structure TagName (tag : Bytes) : Prop where
  mark : ∃ c name, tag = c :: name ∧ c ∉ name ∧ c ≠ 60 ∧ isSpace c = false
  newline : 10 ∉ tag
  bracket : 62 ∉ tag
  nul : 0 ∉ tag

theorem booleanName : TagName (ascii "boolean") where
  mark := ⟨98, ascii "oolean", by decide, by decide, by decide, by decide⟩
  newline := by decide
  bracket := by decide
  nul := by decide

theorem dateTimeName : TagName (ascii "dateTime") where
  mark := ⟨100, ascii "ateTime", by decide, by decide, by decide, by decide⟩
  newline := by decide
  bracket := by decide
  nul := by decide

/-- The three searches in the contents end at the end of the tag. -/
theorem tagScan_iff {tag cut contents : Bytes} (htag : TagName tag) {t : Nat} :
    (∃ p q, strstr (cut ++ contents) cut.length (ascii "\n") = some (some p) ∧
        strstr (cut ++ contents) p tag = some (some q) ∧
        strstr (cut ++ contents) q (ascii ">") = some (some t)) ↔
      ∃ inner behind, contents = inner ++ behind ∧ TagFront tag inner ∧
        t + 1 = cut.length + inner.length := by
  have hnewline : ascii "\n" = [10] := by decide
  have hbracket : ascii ">" = [62] := by decide
  rcases htag.mark with ⟨c, name, rfl, hmark, -⟩
  have hne : c :: name ≠ [] := List.cons_ne_nil c name
  have hten : c ≠ 10 := fun h => htag.newline (h ▸ List.mem_cons_self)
  rw [hnewline, hbracket]
  constructor
  · intro h
    rcases h with ⟨p, q, hp, hq, ht⟩
    obtain ⟨line, rest, rfl, hline, hline0, rfl⟩ := (strstr_iff_letter cut rfl 10 p).mp hp
    rw [← List.append_assoc, strstr_iff_first hne (cut ++ line) (by rw [List.length_append])] at hq
    rcases hq with ⟨u, w, hfirst, hu, rfl⟩
    cases u with
    | nil =>
        obtain ⟨heq, -⟩ := List.cons.inj hfirst.eq
        exact absurd heq.symm hten
    | cons d gap =>
        obtain ⟨rfl, -⟩ := List.cons.inj hfirst.eq
        obtain ⟨rfl, hgap⟩ := (first_mark_iff hmark).mp hfirst.tail
        have hsplit : cut ++ (line ++ 10 :: (gap ++ (c :: name ++ w))) =
            (cut ++ (line ++ 10 :: gap)) ++ (c :: name ++ w) := by
          simp
        have hplace : (cut ++ line).length + (10 :: gap).length =
            (cut ++ (line ++ 10 :: gap)).length := by
          simp only [List.length_append, List.length_cons]
          omega
        rw [hsplit, strstr_iff_letter _ hplace] at ht
        rcases ht with ⟨v, behind, heq, hv, hv0, rfl⟩
        have hinside : ∃ inside, v = c :: name ++ inside ∧ w = inside ++ 62 :: behind := by
          rcases List.append_eq_append_iff.mp heq with ⟨a, ha, hb⟩ | ⟨a, ha, hb⟩
          · exact ⟨a, ha, hb⟩
          · cases a with
            | nil => exact ⟨[], by rw [ha, List.append_nil, List.append_nil], hb.symm⟩
            | cons e a =>
                obtain ⟨rfl, -⟩ := List.cons.inj hb
                exact absurd (by rw [ha]; simp) htag.bracket
        rcases hinside with ⟨inside, rfl, rfl⟩
        rw [List.mem_append, not_or] at hv hv0
        have hgap0 : 0 ∉ gap := fun h => hu (List.mem_cons_of_mem _ h)
        refine ⟨line ++ 10 :: (gap ++ (c :: name ++ (inside ++ [62]))), behind, by simp,
          .intro ⟨hline, hline0⟩ ⟨hgap, hgap0⟩ ⟨hv.2, hv0.2⟩, ?_⟩
        simp only [List.length_append, List.length_cons, List.cons_append, List.length_nil,
          zero_add]
        omega
  · intro h
    rcases h with ⟨inner, behind, rfl, hinner, ht⟩
    cases hinner with
    | intro line_plain gap_plain inside_plain =>
        rename_i line gap inside
        have hline : cut ++ (line ++ 10 :: (gap ++ (c :: name ++ (inside ++ [62]))) ++ behind) =
            cut ++ (line ++ 10 :: (gap ++ (c :: name ++ (inside ++ 62 :: behind)))) := by
          simp
        have hgap : cut ++ (line ++ 10 :: (gap ++ (c :: name ++ (inside ++ 62 :: behind)))) =
            (cut ++ line) ++ 10 :: (gap ++ (c :: name ++ (inside ++ 62 :: behind))) := by
          simp
        have hinside : (cut ++ line) ++ 10 :: (gap ++ (c :: name ++ (inside ++ 62 :: behind))) =
            (cut ++ (line ++ 10 :: gap)) ++ (c :: name ++ inside ++ 62 :: behind) := by
          simp
        have hplace : (cut ++ line).length + (10 :: gap).length =
            (cut ++ (line ++ 10 :: gap)).length := by
          simp only [List.length_append, List.length_cons]
          omega
        have hafter : ¬ c :: name <+: 10 :: (gap ++ (c :: name ++ (inside ++ 62 :: behind))) :=
          fun h => hten (List.cons_prefix_cons.mp h).1
        rw [hline]
        refine ⟨(cut ++ line).length, (cut ++ line).length + (10 :: gap).length, ?_, ?_, ?_⟩
        · exact (strstr_iff_letter cut rfl 10 _).mpr
            ⟨line, _, rfl, line_plain.1, line_plain.2, List.length_append⟩
        · rw [hgap, strstr_iff_first hne _ rfl]
          refine ⟨10 :: gap, _, (first_of_mark hmark gap_plain.1 _).cons hafter, ?_, rfl⟩
          simp [gap_plain.2]
        · rw [hgap, hinside, strstr_iff_letter _ hplace]
          refine ⟨c :: name ++ inside, behind, rfl, ?_, ?_, ?_⟩
          · rw [List.mem_append, not_or]
            exact ⟨htag.bracket, inside_plain.1⟩
          · rw [List.mem_append, not_or]
            exact ⟨htag.nul, inside_plain.2⟩
          · simp only [List.cons_append, List.length_append, List.length_cons, List.length_nil,
              zero_add] at ht ⊢
            omega

/-- The searches behind the header, from the start of its contents to the end of a tag. -/
def FindsTag (h : Header) (tag : Bytes) (t : Nat) : Prop :=
  ∃ p q, strstr h.buf h.startContent (ascii "\n") = some (some p) ∧
    strstr h.buf p tag = some (some q) ∧ strstr h.buf q (ascii ">") = some (some t)

/-- A tag that is found, with what follows it in the buffer as it was received. -/
theorem front_of_finds {tag m : Bytes} (htag : TagName tag) {readlen t : Nat} {h : Header}
    (hscan : scanHeader m readlen = some (some h)) (hfinds : FindsTag h tag t) :
    ∃ front cut behind, m = front ++ behind ∧ Front tag front ∧ h.buf = cut ++ behind ∧
      cut.length = t + 1 ∧ front.length = t + 1 := by
  rcases hfinds with ⟨p, q, hp, hq, ht⟩
  have hle : h.startContent ≤ m.length := by
    have hbounds := strstr_bounds hp
    have hlen := (scanHeader_iff.mp hscan).contents.1
    omega
  obtain ⟨head, contents, rfl, hhead, hstart⟩ := HeadFront.of_scan hscan hle
  obtain ⟨cut, hbuf, hcut⟩ := buf_split hscan hstart
  rw [hbuf, ← hcut] at hp
  rw [hbuf] at hq ht
  obtain ⟨inner, behind, rfl, hinner, hplace⟩ := (tagScan_iff htag).mp ⟨p, q, hp, hq, ht⟩
  refine ⟨head ++ inner, cut ++ inner, behind, by rw [List.append_assoc],
    ⟨head, inner, rfl, hhead, hinner⟩, by rw [hbuf, List.append_assoc], ?_, ?_⟩
  · rw [List.length_append]
    omega
  · rw [List.length_append]
    omega

theorem Front.finds {tag front : Bytes} (htag : TagName tag) (hfront : Front tag front)
    (behind : Bytes) (readlen : Nat) :
    ∃ h cut t, scanHeader (front ++ behind) readlen = some (some h) ∧ FindsTag h tag t ∧
      h.buf = cut ++ behind ∧ cut.length = t + 1 ∧ front.length = t + 1 := by
  rcases hfront with ⟨head, inner, rfl, hhead, hinner⟩
  obtain ⟨h, hscan, hstart⟩ := hhead.scan (inner ++ behind) readlen
  obtain ⟨cut, hbuf, hcut⟩ := buf_split hscan hstart
  have hpos : 0 < inner.length := by
    cases hinner with
    | intro _ _ _ => exact List.length_pos_iff.mpr (by simp)
  have hplace : (cut.length + inner.length - 1) + 1 = cut.length + inner.length := by omega
  obtain ⟨p, q, hp, hq, ht⟩ := (tagScan_iff htag).mpr ⟨inner, behind, rfl, hinner, hplace⟩
  rw [← hbuf] at hp hq ht
  rw [hcut] at hp
  refine ⟨h, cut ++ inner, cut.length + inner.length - 1, by rw [List.append_assoc]; exact hscan,
    ⟨p, q, hp, hq, ht⟩, by rw [hbuf, List.append_assoc], ?_, ?_⟩
  · rw [List.length_append]
    omega
  · rw [List.length_append]
    omega

/-! ## The two results -/

theorem afterScan_some {α : Type} {read : Header → Option α} {m : Bytes} {readlen : Nat} {v : α} :
    afterScan read m readlen = some (some v) ↔
      ∃ h, scanHeader m readlen = some (some h) ∧ read h = some v := by
  rw [afterScan]
  cases scanHeader m readlen with
  | none => simp
  | some o =>
      cases o with
      | none => simp
      | some h => simp

theorem booleanOf_iff {h : Header} {v : Bool} : booleanOf h = some v ↔
    ∃ t c, FindsTag h (ascii "boolean") t ∧ h.buf[t + 1]? = some c ∧ (c == 116) = v := by
  simp only [booleanOf, Option.bind_eq_bind, Option.bind_eq_some_iff, Option.some.injEq, FindsTag]
  constructor
  · intro h
    rcases h with ⟨_, hp, p, rfl, _, hq, q, rfl, _, ht, t, rfl, c, hc, hv⟩
    exact ⟨t, c, ⟨p, q, hp, hq, ht⟩, hc, hv⟩
  · intro h
    rcases h with ⟨t, c, ⟨p, q, hp, hq, ht⟩, hc, hv⟩
    exact ⟨_, hp, p, rfl, _, hq, q, rfl, _, ht, t, rfl, c, hc, hv⟩

theorem dateTimeOf_iff {h : Header} {v : Bytes} : dateTimeOf h = some v ↔
    ∃ t e buf text, FindsTag h (ascii "dateTime") t ∧
      strstr h.buf (t + 1) (ascii "<") = some (some e) ∧ store h.buf e 0 = some buf ∧
      stringAt buf (t + 1) = some text ∧ text ++ [0] = v := by
  simp only [dateTimeOf, Option.bind_eq_bind, Option.bind_eq_some_iff, Option.some.injEq, FindsTag]
  constructor
  · intro h
    rcases h with ⟨_, hp, p, rfl, _, hq, q, rfl, _, ht, t, rfl, _, he, e, rfl, buf, hs, text, hx,
      hv⟩
    exact ⟨t, e, buf, text, ⟨p, q, hp, hq, ht⟩, he, hs, hx, hv⟩
  · intro h
    rcases h with ⟨t, e, buf, text, ⟨p, q, hp, hq, ht⟩, he, hs, hx, hv⟩
    exact ⟨_, hp, p, rfl, _, hq, q, rfl, _, ht, t, rfl, _, he, e, rfl, buf, hs, text, hx, hv⟩

/-- The boolean is read in a memory precisely when the letter behind the tag lies in it. -/
theorem boolean_read_iff {m : Bytes} {readlen : Nat} {v : Bool} :
    afterScan booleanOf m readlen = some (some v) ↔
      ∃ u, (∃ front c, u = front ++ [c] ∧ Front (ascii "boolean") front ∧ (c == 116) = v) ∧
        u <+: m := by
  rw [afterScan_some]
  constructor
  · intro h
    rcases h with ⟨h, hscan, hread⟩
    obtain ⟨t, c, hfinds, hc, hv⟩ := booleanOf_iff.mp hread
    obtain ⟨front, cut, behind, rfl, hfront, hbuf, hcut, -⟩ :=
      front_of_finds booleanName hscan hfinds
    rw [hbuf, ← hcut, List.getElem?_append_right (Nat.le_refl _), Nat.sub_self] at hc
    cases behind with
    | nil => cases hc
    | cons d behind =>
        cases hc
        exact ⟨front ++ [c], ⟨front, c, rfl, hfront, hv⟩, behind, by simp⟩
  · intro h
    rcases h with ⟨_, ⟨front, c, rfl, hfront, hv⟩, behind, rfl⟩
    obtain ⟨h, cut, t, hscan, hfinds, hbuf, hcut, -⟩ :=
      hfront.finds booleanName (c :: behind) readlen
    rw [List.append_assoc, List.singleton_append]
    refine ⟨h, hscan, booleanOf_iff.mpr ⟨t, c, hfinds, ?_, hv⟩⟩
    rw [hbuf, ← hcut, List.getElem?_append_right (Nat.le_refl _), Nat.sub_self,
      List.getElem?_cons_zero]

/-- The text of the element is read precisely when the bracket behind it lies in the memory. -/
theorem dateTime_read_iff {m : Bytes} {readlen : Nat} {v : Bytes} :
    afterScan dateTimeOf m readlen = some (some v) ↔
      ∃ u, (∃ front text, u = front ++ (text ++ [60]) ∧ Front (ascii "dateTime") front ∧
        (60 ∉ text ∧ 0 ∉ text) ∧ text ++ [0] = v) ∧ u <+: m := by
  have hbracket : ascii "<" = [60] := by decide
  rw [afterScan_some]
  constructor
  · intro h
    rcases h with ⟨h, hscan, hread⟩
    obtain ⟨t, e, buf, text, hfinds, he, hs, hx, hv⟩ := dateTimeOf_iff.mp hread
    obtain ⟨front, cut, behind, rfl, hfront, hbuf, hcut, -⟩ :=
      front_of_finds dateTimeName hscan hfinds
    rw [hbracket, hbuf, strstr_iff_letter cut hcut.symm] at he
    rcases he with ⟨text', behind', rfl, h60, h0, rfl⟩
    rw [hbuf, store_behind] at hs
    cases hs
    rw [← hcut, stringAt_append cut h0] at hx
    cases hx
    exact ⟨front ++ (text ++ [60]), ⟨front, text, rfl, hfront, ⟨h60, h0⟩, hv⟩, behind', by simp⟩
  · intro h
    rcases h with ⟨_, ⟨front, text, rfl, hfront, ⟨h60, h0⟩, hv⟩, behind, rfl⟩
    obtain ⟨h, cut, t, hscan, hfinds, hbuf, hcut, -⟩ :=
      hfront.finds dateTimeName (text ++ 60 :: behind) readlen
    rw [List.append_assoc, List.append_assoc, List.singleton_append]
    refine ⟨h, hscan, dateTimeOf_iff.mpr ⟨t, cut.length + text.length,
      cut ++ (text ++ 0 :: behind), text, hfinds, ?_, ?_, ?_, hv⟩⟩
    · rw [hbracket, hbuf, strstr_iff_letter cut hcut.symm]
      exact ⟨text, behind, rfl, h60, h0, rfl⟩
    · rw [hbuf, store_behind]
    · rw [← hcut, stringAt_append cut h0]

/-! ## Replies with one element -/

/-- A reply whose body is a document with one element. -/
structure ElementReply (tag : Bytes) where
  reply : OkReply
  prolog : Bytes
  attributes : Bytes
  content : Bytes
  body_eq : reply.body = prolog ++ (60 :: tag ++ (attributes ++
    62 :: (content ++ (ascii "</" ++ tag ++ [62]))))
  nul : 0 ∉ reply.body
  prolog_apart : ¬ 60 :: tag <:+: prolog
  attributes_apart : ∀ c, attributes.head? = some c → isSpace c = true
  attributes_plain : 62 ∉ attributes
  content_plain : 60 ∉ content

structure BooleanReply extends ElementReply (ascii "boolean") where
  value : Bool
  content_eq : content = if value then ascii "true" else ascii "false"

/-- The bytes of a reply as they come, the header in the first segment. -/
structure Segments (r : OkReply) where
  first : Bytes
  rest : List Bytes
  whole : first ++ rest.flatten = r.text
  header : r.head.length ≤ first.length
  asked : first.length < RCVHEADERBUFSIZE

namespace Segments

variable {r : OkReply} (s : Segments r)

def recvs : List Recv := .data s.first :: s.rest.map .data

/-- The call gives `v` on these segments whatever the buffer held, and looks at received bytes
alone. -/
def Gives {α : Type} (parsing : CharArray RCVHEADERBUFSIZE → List Recv → Option (Option α))
    (read : Header → Option α) (v : α) : Prop :=
  (∀ stack, parsing stack s.recvs = some (some v)) ∧
    afterScan read s.first s.first.length = some (some v)

/-- The scan of the whole reply comes to a tag, the first segment brings the letter behind it,
and that letter tells the value. -/
def ReachesBoolean (v : Bool) : Prop :=
  ∃ front c, Front (ascii "boolean") front ∧ front ++ [c] <+: r.text ∧
    front.length < s.first.length ∧ (c == 116) = v

/-- The scan of the whole reply comes to a tag with the value behind it, and the first segment
brings both and the bracket behind them. -/
def ReachesDateTime (v : Bytes) : Prop :=
  ∃ front, Front (ascii "dateTime") front ∧ front ++ (v ++ [60]) <+: r.text ∧
    (front ++ v).length < s.first.length

theorem first_prefix : s.first <+: r.text := ⟨s.rest.flatten, s.whole⟩

theorem first_ne_nil : s.first ≠ [] := by
  have hheader := s.header
  intro hnil
  rw [hnil, OkReply.head_eq] at hheader
  simp at hheader

/-- What lies in the first segment. -/
theorem prefix_iff {u : Bytes} : u <+: s.first ↔ u <+: r.text ∧ u.length ≤ s.first.length :=
  ⟨fun h => ⟨h.trans s.first_prefix, h.length_le⟩,
    fun h => List.prefix_of_prefix_length_le h.1 s.first_prefix h.2⟩

/-- A call that reads its value from the start of a memory gives it when the first segment reaches
as far, and only then. -/
theorem gives_iff {α : Type} {read : Header → Option α} {v : α} {P : Bytes → Prop}
    {parsing : CharArray RCVHEADERBUFSIZE → List Recv → Option (Option α)}
    (hparsing : ∀ stack, parsing stack s.recvs =
      afterScan read (s.first ++ stack.val.drop s.first.length) s.first.length)
    (hread : ∀ m, afterScan read m s.first.length = some (some v) ↔ ∃ u, P u ∧ u <+: m) :
    s.Gives parsing read v ↔ ∃ u, P u ∧ u <+: r.text ∧ u.length ≤ s.first.length := by
  constructor
  · intro h
    rcases h with ⟨-, hfirst⟩
    obtain ⟨u, hu, hprefix⟩ := (hread s.first).mp hfirst
    exact ⟨u, hu, s.prefix_iff.mp hprefix⟩
  · intro h
    rcases h with ⟨u, hu, hreaches⟩
    have hprefix := s.prefix_iff.mpr hreaches
    refine ⟨fun stack => ?_, (hread s.first).mpr ⟨u, hu, hprefix⟩⟩
    rw [hparsing, hread]
    exact ⟨u, hu, hprefix.trans (List.prefix_append _ _)⟩

theorem gives_boolean_iff (v : Bool) : s.Gives WebApi.parsing booleanOf v ↔ s.ReachesBoolean v := by
  rw [s.gives_iff (fun stack => parsing_received stack s.first_ne_nil s.asked _)
    (fun m => boolean_read_iff)]
  constructor
  · intro h
    rcases h with ⟨_, ⟨front, c, rfl, hfront, hv⟩, htext, hlen⟩
    rw [List.length_append, List.length_singleton] at hlen
    exact ⟨front, c, hfront, htext, hlen, hv⟩
  · intro h
    rcases h with ⟨front, c, hfront, htext, hlen, hv⟩
    refine ⟨front ++ [c], ⟨front, c, rfl, hfront, hv⟩, htext, ?_⟩
    rw [List.length_append, List.length_singleton]
    exact hlen

theorem gives_dateTime_iff {v : Bytes} (h60 : 60 ∉ v) (h0 : 0 ∉ v) :
    s.Gives ServerTimeGet.parsing dateTimeOf (v ++ [0]) ↔ s.ReachesDateTime v := by
  rw [s.gives_iff (fun stack => serverTime_received stack s.first_ne_nil s.asked _)
    (fun m => dateTime_read_iff)]
  constructor
  · intro h
    rcases h with ⟨_, ⟨front, text, rfl, hfront, -, hv⟩, htext, hlen⟩
    obtain rfl : text = v := List.append_cancel_right hv
    rw [← List.append_assoc, List.length_append, List.length_singleton] at hlen
    exact ⟨front, hfront, htext, hlen⟩
  · intro h
    rcases h with ⟨front, hfront, htext, hlen⟩
    refine ⟨front ++ (v ++ [60]), ⟨front, v, rfl, hfront, ⟨h60, h0⟩, rfl⟩, htext, ?_⟩
    rw [← List.append_assoc, List.length_append, List.length_singleton]
    exact hlen

end Segments

/-- Two ways to split a reply both give its value within what was received precisely when both
first segments reach it. -/
theorem segments_agree_iff (b : BooleanReply) (s₁ s₂ : Segments b.reply)
    (d : ElementReply (ascii "dateTime")) (t₁ t₂ : Segments d.reply) :
    (s₁.Gives WebApi.parsing booleanOf b.value ∧ s₂.Gives WebApi.parsing booleanOf b.value ↔
      s₁.ReachesBoolean b.value ∧ s₂.ReachesBoolean b.value) ∧
    (t₁.Gives ServerTimeGet.parsing dateTimeOf (d.content ++ [0]) ∧
        t₂.Gives ServerTimeGet.parsing dateTimeOf (d.content ++ [0]) ↔
      t₁.ReachesDateTime d.content ∧ t₂.ReachesDateTime d.content) := by
  have h0 : 0 ∉ d.content := by
    have hnul := d.nul
    rw [d.body_eq] at hnul
    intro h
    simp [h] at hnul
  rw [s₁.gives_boolean_iff, s₂.gives_boolean_iff, t₁.gives_dateTime_iff d.content_plain h0,
    t₂.gives_dateTime_iff d.content_plain h0]
  exact ⟨Iff.rfl, Iff.rfl⟩

/-! ## Plain replies -/

theorem Front.unique {tag m front front' behind behind' : Bytes} (htag : TagName tag)
    (h : Front tag front) (h' : Front tag front') (hm : m = front ++ behind)
    (hm' : m = front' ++ behind') : front = front' := by
  obtain ⟨hd, -, t, hscan, ⟨p, q, hp, hq, ht⟩, -, -, hlen⟩ := h.finds htag behind 0
  obtain ⟨hd', -, t', hscan', ⟨p', q', hp', hq', ht'⟩, -, -, hlen'⟩ := h'.finds htag behind' 0
  rw [← hm] at hscan
  rw [← hm', hscan] at hscan'
  obtain rfl : hd = hd' := Option.some.inj (Option.some.inj hscan')
  obtain rfl : p = p' := Option.some.inj (Option.some.inj (hp.symm.trans hp'))
  obtain rfl : q = q' := Option.some.inj (Option.some.inj (hq.symm.trans hq'))
  obtain rfl : t = t' := Option.some.inj (Option.some.inj (ht.symm.trans ht'))
  exact (List.append_inj (hm.symm.trans hm') (hlen.trans hlen'.symm)).1

/-- A header whose last field is the length, spelled as it is searched for, is scanned whole. -/
theorem OkReply.headFront (r : OkReply) (hname : r.length.name = ascii "Content-Length")
    (hlast : r.after = []) : HeadFront r.head := by
  obtain ⟨skipped, value, hvalue⟩ := List.exists_cons_of_ne_nil r.value_ne_nil
  have hmark : (10 : UInt8) ∉ nameKey := by decide
  have hlength := r.lengthLine hname hvalue []
  obtain ⟨-, hbefore⟩ := (first_mark_iff hmark).mp (lengthKey_eq ▸ hlength.first)
  have hhead : r.head = ascii "HTTP/1.1" ++ 32 :: (ascii "200" ++ 32 ::
      ((r.reason ++ 13 :: marked r.before) ++ (lengthKey ++
        skipped :: (value ++ 13 :: [10, 13, 10])))) := by
    have hline : r.length.toField.line = nameKey ++ skipped :: value := by
      rw [Field.line, hname, hvalue]
      rfl
    have hnone : marked [] = [] := rfl
    rw [OkReply.head_eq, OkReply.fields, hlast, marked_append, marked_cons, hline, lengthKey_eq,
      hnone]
    simp
  rw [hhead]
  exact .intro (by decide) (by decide) (by decide) ⟨lengthKey_eq ▸ hbefore, hlength.before⟩
    hlength.value rfl

namespace ElementReply

variable {tag : Bytes} (r : ElementReply tag)

/-- The reply up to the end of its tag. -/
def upToTag : Bytes :=
  r.reply.head ++ (r.prolog ++ (60 :: tag ++ (r.attributes ++ [62])))

/-- The length is the last field, and the tag stands behind a line, with nothing but blanks
between. -/
structure Plain : Prop where
  spelled : r.reply.length.name = ascii "Content-Length"
  last : r.reply.after = []
  line : ∃ line gap, r.prolog = line ++ 10 :: gap ∧ 10 ∉ line ∧ ∀ c ∈ gap, isSpace c = true

theorem text_eq : r.reply.text = r.upToTag ++ (r.content ++ (ascii "</" ++ tag ++ [62])) := by
  rw [OkReply.text, r.body_eq, upToTag]
  simp

variable {r}

theorem Plain.front (htag : TagName tag) (h : r.Plain) : Front tag r.upToTag := by
  refine ⟨r.reply.head, _, rfl, r.reply.headFront h.spelled h.last, ?_⟩
  rcases h.line with ⟨line, gap, hprolog, hline, hgap⟩
  rcases htag.mark with ⟨c, name, rfl, -, hbracket, hspace⟩
  have hnul := r.nul
  rw [r.body_eq, hprolog] at hnul
  simp only [List.mem_append, List.mem_cons, not_or] at hnul
  have hc : c ∉ gap ++ [60] := by
    rw [List.mem_append, List.mem_singleton, not_or]
    refine ⟨fun hc => ?_, hbracket⟩
    have hblank := hgap c hc
    rw [hspace] at hblank
    cases hblank
  have hinner : r.prolog ++ (60 :: (c :: name) ++ (r.attributes ++ [62])) =
      line ++ 10 :: ((gap ++ [60]) ++ (c :: name ++ (r.attributes ++ [62]))) := by
    rw [hprolog]
    simp
  rw [hinner]
  refine .intro ⟨hline, hnul.1.1⟩ ⟨not_infix_of_not_mem hc, ?_⟩
    ⟨r.attributes_plain, hnul.2.2.1⟩
  simp [hnul.1.2]

end ElementReply

/-- A plain reply with a boolean needs the first letter of the value in the first segment. -/
theorem reachesBoolean_iff {r : BooleanReply} (h : r.Plain) (s : Segments r.reply) :
    s.ReachesBoolean r.value ↔ r.upToTag.length < s.first.length := by
  have hfront := h.front booleanName
  constructor
  · intro h
    rcases h with ⟨front, c, hfront', ⟨behind, hbehind⟩, hlen, -⟩
    have htext : r.reply.text = front ++ (c :: behind) := by
      rw [← hbehind]
      simp
    rwa [hfront.unique booleanName hfront' r.text_eq htext]
  · intro hlen
    have hvalue : ∃ c rest, r.content = c :: rest ∧ (c == 116) = r.value := by
      rw [r.content_eq]
      cases r.value with
      | true => exact ⟨116, _, rfl, rfl⟩
      | false => exact ⟨102, _, rfl, rfl⟩
    rcases hvalue with ⟨c, rest, hcontent, hc⟩
    refine ⟨r.upToTag, c, hfront, ⟨rest ++ (ascii "</" ++ ascii "boolean" ++ [62]), ?_⟩, hlen, hc⟩
    rw [r.text_eq, hcontent]
    simp

/-- One with a dateTime needs the value and the bracket behind it. -/
theorem reachesDateTime_iff {r : ElementReply (ascii "dateTime")} (h : r.Plain)
    (s : Segments r.reply) :
    s.ReachesDateTime r.content ↔ (r.upToTag ++ r.content).length < s.first.length := by
  have hfront := h.front dateTimeName
  constructor
  · intro h
    rcases h with ⟨front, hfront', ⟨behind, hbehind⟩, hlen⟩
    have htext : r.reply.text = front ++ (r.content ++ 60 :: behind) := by
      rw [← hbehind]
      simp
    rwa [hfront.unique dateTimeName hfront' r.text_eq htext]
  · intro hlen
    have hbracket : ascii "</" = [60, 47] := by decide
    refine ⟨r.upToTag, hfront, ⟨47 :: (ascii "dateTime" ++ [62]), ?_⟩, hlen⟩
    rw [r.text_eq, hbracket]
    simp

/-! A reply to `GetNetInfo` in one segment, and with its element in a second one. -/

def trueReply : BooleanReply where
  reply :=
    { reason := ascii "OK"
      before := []
      length := lengthField (ascii "45") (by decide +kernel) (by decide +kernel)
      after := []
      body := ascii "<?xml version=\"1.0\"?>\n<boolean>true</boolean>"
      reason_text := ok_text
      others := by decide +kernel
      announced := by decide +kernel }
  prolog := ascii "<?xml version=\"1.0\"?>\n"
  attributes := []
  content := ascii "true"
  body_eq := by decide +kernel
  nul := by decide +kernel
  prolog_apart := by decide +kernel
  attributes_apart := by decide +kernel
  attributes_plain := by decide +kernel
  content_plain := by decide +kernel
  value := true
  content_eq := by decide +kernel

/-- The first `k` bytes, and the rest. -/
def trueSegments (k : Nat) (hheader : trueReply.reply.head.length ≤ k)
    (hlt : k < RCVHEADERBUFSIZE) (hk : k ≤ trueReply.reply.text.length) :
    Segments trueReply.reply where
  first := trueReply.reply.text.take k
  rest := [trueReply.reply.text.drop k]
  whole := by simp
  header := by
    rw [List.length_take]
    omega
  asked := by
    rw [List.length_take]
    omega

theorem trueReply_head_length : trueReply.reply.head.length = 39 := by decide +kernel

theorem trueReply_text_length : trueReply.reply.text.length = 84 := by decide +kernel

def trueWhole : Segments trueReply.reply :=
  trueSegments 84 (trueReply_head_length ▸ by decide) (by decide)
    (trueReply_text_length ▸ by decide)

def trueCut : Segments trueReply.reply :=
  trueSegments 61 (trueReply_head_length ▸ by decide) (by decide)
    (trueReply_text_length ▸ by decide)

/-- Cut behind the declaration, the call does not come to its end within what was received. -/
theorem trueCut_not_given : ¬ (trueWhole.Gives WebApi.parsing booleanOf trueReply.value ∧
    trueCut.Gives WebApi.parsing booleanOf trueReply.value) := by
  have hread : afterScan booleanOf (trueReply.reply.text.take 61) 61 = none := by decide +kernel
  have hlen : trueCut.first.length = 61 := by
    have htext := trueReply_text_length
    change (trueReply.reply.text.take 61).length = 61
    rw [List.length_take]
    omega
  intro h
  rcases h with ⟨-, -, hgives⟩
  rw [hlen] at hgives
  cases hread.symm.trans hgives

end Acu.Web
