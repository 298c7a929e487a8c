import Acu.Web.HeaderScan

/-!
# The body of a reply in pieces

A body comes in a first piece behind the header and any number of further ones. Each is
received behind the pieces before it, with as much asked for as is still missing.
-/

namespace Acu.Web

open Acu.Core Acu.Core.CMemory

/-! ## One piece -/

theorem index?_natCast (n : Nat) : index? (n : Int) = some n := by
  rw [index?, if_pos (Int.natCast_nonneg n), Int.toNat_natCast]

theorem recvInto_data {front old back piece : Bytes} (h : old.length = piece.length) {n : Nat}
    (hn : piece.length ≤ n) :
    recvInto (front ++ (old ++ back)) front.length n (.data piece) =
      some (front ++ (piece ++ back), (piece.length : Int)) := by
  have hasked : ¬ (0 ≤ (n : Int) ∧ (n : Int) < piece.length) := by omega
  simp only [recvInto, if_neg hasked, index?_natCast, blit_behind front old piece back h,
    Option.bind_eq_bind, Option.bind_some]

/-- What is left to ask for behind a piece. -/
theorem left_behind (piece : Bytes) (pieces : List Bytes) :
    (((piece :: pieces).flatten.length : Nat) : Int) - (piece.length : Int) =
      (pieces.flatten.length : Nat) := by
  rw [List.flatten_cons, List.length_append]
  omega

/-- A block with room for all pieces has it for the first one. -/
theorem room_for {piece back : Bytes} {pieces : List Bytes}
    (h : (piece :: pieces).flatten.length ≤ back.length) :
    ∃ old rest, back = old ++ rest ∧ old.length = piece.length ∧
      pieces.flatten.length ≤ rest.length := by
  rw [List.flatten_cons, List.length_append] at h
  have hle : piece.length ≤ back.length := by omega
  obtain ⟨old, rest, rfl, hold⟩ := exists_split hle
  rw [List.length_append] at h
  exact ⟨old, rest, rfl, hold, by omega⟩

/-- A piece that is not empty leaves the loop something to ask for before it. -/
theorem asks {piece : Bytes} {pieces : List Bytes} (h : piece ≠ []) :
    (((piece :: pieces).flatten.length : Nat) : Int) ≠ 0 := by
  have hpos := List.length_pos_iff.mpr h
  rw [List.flatten_cons, List.length_append]
  omega

/-! ## All pieces -/

theorem collectLoop_done (rs : List Recv) (buf : Bytes) (readByteContent : Int) :
    collectLoop rs buf readByteContent 0 = some buf := by
  cases rs with
  | nil => rfl
  | cons r rs => rfl

theorem collectLoop_pieces (front back : Bytes) {pieces : List Bytes} (more : List Recv)
    (hne : ∀ p ∈ pieces, p ≠ []) (hroom : pieces.flatten.length ≤ back.length) :
    collectLoop (pieces.map .data ++ more) (front ++ back) front.length
        (pieces.flatten.length : Nat) =
      some (front ++ (pieces.flatten ++ back.drop pieces.flatten.length)) := by
  induction pieces generalizing front back with
  | nil => exact collectLoop_done more _ _
  | cons piece pieces ih =>
      obtain ⟨old, rest, rfl, hold, hrest⟩ := room_for hroom
      have hasked : piece.length ≤ (piece :: pieces).flatten.length := by
        rw [List.flatten_cons, List.length_append]
        omega
      have hnext := ih (front ++ piece) rest (fun p hp => hne p (List.mem_cons_of_mem _ hp)) hrest
      rw [List.length_append, List.append_assoc, List.append_assoc, Int.natCast_add] at hnext
      rw [List.map_cons, List.cons_append, collectLoop,
        if_neg (asks (hne piece List.mem_cons_self)), recvInto_data hold hasked]
      simp only [Option.bind_eq_bind, Option.bind_some, left_behind]
      rw [hnext, List.flatten_cons, List.append_assoc, List.length_append, ← hold,
        List.drop_length_add_append]

namespace RfidInfoSelectAll

variable (m_filename : String)

theorem bodyLoop_done (rs : List Recv) (buf : Bytes) (readByteContent : Int) (body : Bytes) :
    bodyLoop m_filename rs buf readByteContent 0 body = pure body := by
  cases rs with
  | nil => rfl
  | cons r rs => rfl

/-- Each piece is written up to its first NUL. -/
theorem bodyLoop_pieces (front back : Bytes) {pieces : List Bytes} (more : List Recv)
    (hne : ∀ p ∈ pieces, p ≠ []) (hroom : pieces.flatten.length < back.length) (body : Bytes)
    (d : Disk String) :
    bodyLoop m_filename (pieces.map .data ++ more) (front ++ back) front.length
        (pieces.flatten.length : Nat) body d =
      ⟨pieces.map fun p => .append m_filename (p.takeWhile (· ≠ 0)),
        some (body ++ pieces.flatten)⟩ := by
  induction pieces generalizing front back body d with
  | nil =>
      rw [List.flatten_nil, List.length_nil, List.append_nil]
      exact congrFun (bodyLoop_done m_filename more _ _ body) d
  | cons piece pieces ih =>
      obtain ⟨old, rest, rfl, hold, hrest⟩ := room_for (Nat.le_of_lt hroom)
      rw [List.flatten_cons, List.length_append, List.length_append] at hroom
      have hpos : 0 < rest.length := by omega
      obtain ⟨c, rest, rfl⟩ := List.exists_cons_of_length_pos hpos
      have hasked : piece.length ≤ (piece :: pieces).flatten.length := by
        rw [List.flatten_cons, List.length_append]
        omega
      have hstop : ((front.length : Nat) : Int) + (piece.length : Int) =
          ((front.length + piece.length : Nat) : Int) := (Int.natCast_add _ _).symm
      have hstring : stringAt (front ++ (piece ++ 0 :: rest)) front.length =
          some (piece.takeWhile (· ≠ 0)) := by
        rw [stringAt, List.drop_left]
        exact cstring_takeWhile piece rest
      have hbehind : pieces.flatten.length < (0 :: rest).length := by
        rw [List.length_cons] at hroom ⊢
        omega
      have hnext := ih (front ++ piece) (0 :: rest)
        (fun p hp => hne p (List.mem_cons_of_mem _ hp)) hbehind (body ++ piece)
        (FileEvent.apply d
          (.append m_filename (piece.takeWhile (· ≠ 0)) : FileEvent String Note))
      rw [List.length_append, List.append_assoc] at hnext
      rw [List.map_cons, List.cons_append, bodyLoop,
        if_neg (asks (hne piece List.mem_cons_self)), recvInto_data hold hasked]
      simp only [FileProg.ofOption_some, FileProg.pure_bind, left_behind, hstop, index?_natCast,
        store_behind, hstring, FileProg.emit_bind, hnext]
      rw [List.map_cons, List.flatten_cons, List.append_assoc]

end RfidInfoSelectAll

/-! ## The first piece -/

/-- A header whose contents start with the first piece in its buffer. -/
structure Starts (h : Header) (first : Bytes) : Prop where
  count : h.readByteContent = first.length
  behind : ∃ c rest, h.buf.drop h.startContent = first ++ c :: rest

theorem starts_of_parsed {stack : CharArray RCVHEADERBUFSIZE} {bytes : Bytes} {h : Header}
    (hparse : parsingHeader stack (.data bytes) = some (some h)) (hread : 0 ≤ h.readByteContent) :
    Starts h (bytes.drop h.startContent) := by
  obtain ⟨hlt, -, hcount, hdrop⟩ := parsingHeader_some hparse
  have hstart : h.startContent ≤ bytes.length := by omega
  have hstack : 0 < (stack.val.drop bytes.length).length := by
    rw [List.length_drop, stack.property]
    omega
  obtain ⟨c, rest, hrest⟩ := List.exists_cons_of_length_pos hstack
  refine ⟨by rw [hcount, List.length_drop]; omega, c, rest, ?_⟩
  rw [hdrop, hrest, List.drop_append_of_le_length hstart]

section Contents

variable {h : Header} {first : Bytes}

theorem Starts.load_first (hs : Starts h first) :
    load h.buf h.startContent first.length = some first := by
  rcases hs.behind with ⟨c, rest, hbehind⟩
  have hlen := congrArg List.length hbehind
  rw [List.length_drop, List.length_append, List.length_cons] at hlen
  rw [load, if_pos (by omega), hbehind, List.take_left]

/-- The letter behind the first piece is overwritten with a NUL. -/
theorem Starts.terminate (hs : Starts h first) :
    ∃ buf, store h.buf (h.startContent + first.length) 0 = some buf ∧
      stringAt buf h.startContent = some (first.takeWhile (· ≠ 0)) ∧
      Starts { h with buf } first := by
  rcases hs.behind with ⟨c, rest, hbehind⟩
  have hlen := congrArg List.length hbehind
  rw [List.length_drop, List.length_append, List.length_cons] at hlen
  have hstart : h.startContent ≤ h.buf.length := by omega
  obtain ⟨front, back, hbuf, hfront⟩ := exists_split hstart
  rw [hbuf, ← hfront, List.drop_left] at hbehind
  have hstring : stringAt (front ++ (first ++ 0 :: rest)) front.length =
      some (first.takeWhile (· ≠ 0)) := by
    rw [stringAt, List.drop_left]
    exact cstring_takeWhile first rest
  have hnext : (front ++ (first ++ 0 :: rest)).drop h.startContent = first ++ 0 :: rest := by
    rw [← hfront, List.drop_left]
  refine ⟨front ++ (first ++ 0 :: rest), ?_, ?_, hs.count, 0, rest, hnext⟩
  · rw [hbuf, hbehind, ← hfront]
    exact store_behind front first c 0 rest
  · rw [← hfront]
    exact hstring

variable (heap : Nat → UInt8)

/-- The first piece at the start of a fresh block. -/
theorem blit_first {size : Nat} (hsize : first.length ≤ size) :
    ∃ back, blit ((List.range size).map heap) 0 first = some (first ++ back) ∧
      back.length = size - first.length := by
  have hlen : ((List.range size).map heap).length = size := by
    rw [List.length_map, List.length_range]
  obtain ⟨old, back, hblock, hold⟩ := exists_split (m := (List.range size).map heap)
    (hlen.symm ▸ hsize)
  refine ⟨back, ?_, ?_⟩
  · rw [hblock]
    exact blit_behind [] old first back hold
  · rw [hblock, List.length_append, hold] at hlen
    omega

/-- The pieces come to the contents. -/
theorem collectContents_pieces (hs : Starts h first) {pieces : List Bytes} (more : List Recv)
    (hne : ∀ p ∈ pieces, p ≠ [])
    (hlen : h.contentLength = (first.length + pieces.flatten.length : Nat)) :
    collectContents heap h (pieces.map .data ++ more) =
      some (first ++ pieces.flatten ++ [0]) := by
  have hroom : first.length ≤ first.length + pieces.flatten.length + 1 := by omega
  obtain ⟨back, hblit, hback⟩ := blit_first heap hroom
  have hloop := collectLoop_pieces first back more hne (by omega)
  have hleft : ((first.length + pieces.flatten.length : Nat) : Int) - (first.length : Int) =
      (pieces.flatten.length : Nat) := by omega
  have hdrop : (back.drop pieces.flatten.length).length = 1 := by
    rw [List.length_drop]
    omega
  obtain ⟨c, hc⟩ := List.length_eq_one_iff.mp hdrop
  have hlast : store (first ++ (pieces.flatten ++ [c])) (first.length + pieces.flatten.length) 0 =
      some (first ++ (pieces.flatten ++ [0])) := store_behind first pieces.flatten c 0 []
  have hsize : ((first.length + pieces.flatten.length : Nat) : Int) + 1 =
      ((first.length + pieces.flatten.length + 1 : Nat) : Int) := rfl
  simp only [collectContents, hlen, hs.count, hsize, index?_natCast, Option.bind_eq_bind,
    Option.bind_some, hs.load_first, hblit, hleft, hloop, hc, Nat.add_sub_cancel, hlast,
    List.append_assoc]

namespace RfidInfoSelectAll

variable (m_filename : String)

theorem contents_pieces (hs : Starts h first) {pieces : List Bytes} (more : List Recv)
    (hne : ∀ p ∈ pieces, p ≠ [])
    (hlen : h.contentLength = (first.length + pieces.flatten.length : Nat)) (d : Disk String) :
    contents m_filename h heap (pieces.map .data ++ more) d =
      ⟨pieces.map fun p => .append m_filename (p.takeWhile (· ≠ 0)),
        some (first ++ pieces.flatten)⟩ := by
  have hroom : first.length ≤ first.length + pieces.flatten.length + 1 := by omega
  obtain ⟨back, hblit, hback⟩ := blit_first heap hroom
  have hloop := bodyLoop_pieces m_filename first back more hne (by omega) first d
  have hleft : ((first.length + pieces.flatten.length : Nat) : Int) - (first.length : Int) =
      (pieces.flatten.length : Nat) := by omega
  have hsize : ((first.length + pieces.flatten.length : Nat) : Int) + 1 =
      ((first.length + pieces.flatten.length + 1 : Nat) : Int) := rfl
  simp only [contents, hlen, hs.count, hsize, index?_natCast, FileProg.ofOption_some,
    FileProg.pure_bind, hs.load_first, hblit, hleft, hloop]

end RfidInfoSelectAll

end Contents

/-! ## A reply in pieces -/

section Reply

variable {stack : CharArray RCVHEADERBUFSIZE} {bytes : Bytes} {h : Header}
  (hparse : parsingHeader stack (.data bytes) = some (some h))

include hparse

theorem afterHeader_parsed {α : Type} (contents : Header → List Recv → Option α)
    (rs : List Recv) :
    afterHeader stack contents (.data bytes :: rs) = (contents h rs).map some := by
  rw [afterHeader, hparse]

namespace RfidInfoSelectAll

variable (m_filename : String) (heap : Nat → UInt8)

/-- The first piece is written when it is terminated, the others when they come. -/
theorem parsing_pieces {first : Bytes} (hs : Starts h first) {pieces : List Bytes}
    (more : List Recv) (hne : ∀ p ∈ pieces, p ≠ [])
    (hlen : h.contentLength = (first.length + pieces.flatten.length : Nat)) (d : Disk String) :
    parsing m_filename stack heap (.data bytes :: (pieces.map .data ++ more)) d =
      ⟨.create m_filename :: .append m_filename (first.takeWhile (· ≠ 0)) ::
          (pieces.map (fun p => .append m_filename (p.takeWhile (· ≠ 0))) ++
            [.note (.served (first ++ pieces.flatten))]), some true⟩ := by
  rcases hs.terminate with ⟨buf, hstore, hstring, hbuf⟩
  have hstop : (h.startContent : Int) + h.readByteContent =
      ((h.startContent + first.length : Nat) : Int) := by
    rw [hs.count]
    rfl
  have hrest (d : Disk String) :
      (contents m_filename { h with buf } heap (pieces.map .data ++ more) >>= fun body => do
        FileProg.emit (.note (.served body))
        pure true) d =
        ⟨pieces.map (fun p => .append m_filename (p.takeWhile (· ≠ 0))) ++
          [.note (.served (first ++ pieces.flatten))], some true⟩ := by
    have hcontents := contents_pieces heap m_filename hbuf more hne hlen d
    rw [FileProg.bind_of_some _ (congrArg Observed.value hcontents), hcontents]
    rfl
  simp only [parsing, FileProg.emit_bind, hparse, FileProg.ofOption_some, FileProg.pure_bind,
    hstop, index?_natCast, hstore, hstring, hrest]

end RfidInfoSelectAll

end Reply

/-- What is appended to a file that is there. -/
theorem replay_appends (m_filename : String) (pieces : List Bytes) {d : Disk String}
    {old : Bytes} (hold : d m_filename = some old) :
    FileEvent.replay d (pieces.map fun p => (.append m_filename p : FileEvent String Note))
      m_filename = some (old ++ pieces.flatten) := by
  induction pieces generalizing d old with
  | nil => simpa using hold
  | cons piece pieces ih =>
      have hnext : FileEvent.apply d (.append m_filename piece : FileEvent String Note) m_filename =
          some (old ++ piece) := by
        simp only [FileEvent.apply, hold, Function.update_self]
      rw [List.map_cons, FileEvent.replay_cons, ih hnext, List.flatten_cons, List.append_assoc]

/-- A body that comes in pieces is left in the block with a NUL behind it, and when it has no NUL
itself is what the file holds. -/
theorem bodies_received (stack : CharArray RCVHEADERBUFSIZE) (heap : Nat → UInt8)
    (m_filename : String) (d : Disk String) {bytes : Bytes} {h : Header}
    (hparse : parsingHeader stack (.data bytes) = some (some h)) (hread : 0 ≤ h.readByteContent)
    {pieces : List Bytes} (hne : ∀ p ∈ pieces, p ≠ []) (more : List Recv) {body : Bytes}
    (hbody : body = bytes.drop h.startContent ++ pieces.flatten)
    (hlen : h.contentLength = body.length) :
    CodeDataSelect.parsing stack heap (.data bytes :: (pieces.map .data ++ more)) =
        some (some (body ++ [0])) ∧
      RfidInfoSelect.parsing stack heap (.data bytes :: (pieces.map .data ++ more)) =
        some (some (body ++ [0])) ∧
      (0 ∉ body →
        (RfidInfoSelectAll.parsing m_filename stack heap
            (.data bytes :: (pieces.map .data ++ more)) d).value = some true ∧
          FileEvent.replay d (RfidInfoSelectAll.parsing m_filename stack heap
            (.data bytes :: (pieces.map .data ++ more)) d).events m_filename = some body) := by
  have hs := starts_of_parsed hparse hread
  have hcount : h.contentLength =
      ((bytes.drop h.startContent).length + pieces.flatten.length : Nat) := by
    rw [hlen, hbody, List.length_append]
  have hcollected : afterHeader stack (collectContents heap)
      (.data bytes :: (pieces.map .data ++ more)) = some (some (body ++ [0])) := by
    rw [afterHeader_parsed hparse, collectContents_pieces heap hs more hne hcount, hbody]
    rfl
  refine ⟨hcollected, hcollected, fun h0 => ?_⟩
  have hparsing := RfidInfoSelectAll.parsing_pieces hparse m_filename heap hs more hne hcount d
  refine ⟨congrArg Observed.value hparsing, ?_⟩
  have hplain : ∀ p ∈ bytes.drop h.startContent :: pieces, p.takeWhile (· ≠ 0) = p := by
    intro p hp
    refine takeWhile_of_nul_not_mem fun h => h0 ?_
    rw [hbody, ← List.flatten_cons]
    exact List.mem_flatten.mpr ⟨p, hp, h⟩
  have hpieces : pieces.map (fun p => (.append m_filename (p.takeWhile (· ≠ 0)) :
      FileEvent String Note)) = pieces.map fun p => .append m_filename p :=
    List.map_congr_left fun p hp => by rw [hplain p (List.mem_cons_of_mem _ hp)]
  have hstart : FileEvent.apply (FileEvent.apply d (.create m_filename : FileEvent String Note))
      (.append m_filename (bytes.drop h.startContent) : FileEvent String Note) m_filename =
        some (bytes.drop h.startContent) := by
    simp [FileEvent.apply]
  rw [hparsing, hplain _ List.mem_cons_self, hpieces, FileEvent.replay_cons,
    FileEvent.replay_cons, FileEvent.replay_append, hbody,
    ← replay_appends m_filename pieces hstart]
  rfl

/-! A body of five bytes in three pieces, the first one behind the header. -/

def listStart : Bytes := ascii "HTTP/1.1 200 OK\r\nContent-Length: 5\r\n\r\nab"

def listStack : CharArray RCVHEADERBUFSIZE := ⟨List.replicate RCVHEADERBUFSIZE 0, zeros_length⟩

theorem listStart_parsed : ∃ h, parsingHeader listStack (.data listStart) = some (some h) ∧
    h.startContent = 38 ∧ h.contentLength = 5 ∧ h.readByteContent = 2 := by
  have hview : (parsingHeader listStack (.data listStart)).map (Option.map fun h =>
      (h.startContent, h.contentLength, h.readByteContent)) = some (some (38, 5, 2)) := by
    decide +kernel
  obtain ⟨o, hparse, ho⟩ := Option.map_eq_some_iff.mp hview
  obtain ⟨h, rfl, hfields⟩ := Option.map_eq_some_iff.mp ho
  simp only [Prod.mk.injEq] at hfields
  exact ⟨h, hparse, hfields⟩

theorem bodies_received_list :
    CodeDataSelect.parsing listStack (fun _ => 0)
          (.data listStart :: ([[99], [100, 101]].map .data ++ [])) =
        some (some ([97, 98, 99, 100, 101] ++ [0])) ∧
      RfidInfoSelect.parsing listStack (fun _ => 0)
          (.data listStart :: ([[99], [100, 101]].map .data ++ [])) =
        some (some ([97, 98, 99, 100, 101] ++ [0])) ∧
      (0 ∉ ([97, 98, 99, 100, 101] : Bytes) →
        (RfidInfoSelectAll.parsing "list" listStack (fun _ => 0)
            (.data listStart :: ([[99], [100, 101]].map .data ++ [])) fun _ => none).value =
          some true ∧
          FileEvent.replay (fun _ => none) (RfidInfoSelectAll.parsing "list" listStack (fun _ => 0)
            (.data listStart :: ([[99], [100, 101]].map .data ++ [])) fun _ => none).events "list" =
          some [97, 98, 99, 100, 101]) := by
  rcases listStart_parsed with ⟨h, hparse, hstart, hlength, hread⟩
  refine bodies_received listStack (fun _ => 0) "list" (fun _ => none) hparse ?_ ?_ [] ?_ ?_
  · rw [hread]
    decide
  · decide
  · rw [hstart]
    decide +kernel
  · rw [hlength]
    rfl

end Acu.Web
