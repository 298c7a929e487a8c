import Acu.Web.Download

/-!
# Parsing the replies

What the `parsing()` of each request but the download makes of the reply: false, or
true with the content of the result field. A reply that ends before `parsing()`
does, or that leads through a null pointer or out of a buffer, has no outcome.
-/

namespace Acu.Web

open Acu.Core Acu.Core.CMemory

/-- The contents of a reply whose first piece came with the header. -/
def afterHeader {α : Type} (stack : CharArray RCVHEADERBUFSIZE)
    (contents : Header → List Recv → Option α) : List Recv → Option (Option α)
  | [] => none
  | r :: rs =>
      match parsingHeader stack r with
      | none => none
      | some none => some none
      | some (some h) => (contents h rs).map some

/-- `WebApi::parsing()`: `m_ret` is set by the letter behind the tag of the `boolean`. -/
def WebApi.parsing (stack : CharArray RCVHEADERBUFSIZE) : List Recv → Option (Option Bool) :=
  afterHeader stack fun h _ => do
    let p ← ← strstr h.buf h.startContent (ascii "\n")
    let p ← ← strstr h.buf p (ascii "boolean")
    let p ← ← strstr h.buf p (ascii ">")
    let c ← h.buf[p + 1]?
    some (c == 116)

/-- `while(nleaved)` where the pieces are only collected. -/
def collectLoop : List Recv → Bytes → Int → Int → Option Bytes
  | [], buf, _, nleaved => if nleaved = 0 then some buf else none
  | r :: rs, buf, readByteContent, nleaved =>
      if nleaved = 0 then some buf
      else do
        let (buf, readlen) ← recvInto buf readByteContent nleaved r
        collectLoop rs buf (readByteContent + readlen) (nleaved - readlen)

/-- The reading of the contents into a fresh block of `contentLength + 1` bytes, which held
`heap` before; the block is what `m_pRet` is left to point to. -/
def collectContents (heap : Nat → UInt8) (h : Header) (rs : List Recv) : Option Bytes := do
  let size ← index? (h.contentLength + 1)
  let count ← index? h.readByteContent
  let first ← load h.buf h.startContent count
  let buf ← blit ((List.range size).map heap) 0 first
  let buf ← collectLoop rs buf h.readByteContent (h.contentLength - h.readByteContent)
  store buf (size - 1) 0

def CodeDataSelect.parsing (stack : CharArray RCVHEADERBUFSIZE) (heap : Nat → UInt8) :
    List Recv → Option (Option Bytes) :=
  afterHeader stack (collectContents heap)

def RfidInfoSelect.parsing (stack : CharArray RCVHEADERBUFSIZE) (heap : Nat → UInt8) :
    List Recv → Option (Option Bytes) :=
  afterHeader stack (collectContents heap)

/-- The text of the element, copied with its NUL into a block of its own. -/
def ServerTimeGet.parsing (stack : CharArray RCVHEADERBUFSIZE) :
    List Recv → Option (Option Bytes) :=
  afterHeader stack fun h _ => do
    let p ← ← strstr h.buf h.startContent (ascii "\n")
    let p ← ← strstr h.buf p (ascii "dateTime")
    let p ← ← strstr h.buf p (ascii ">")
    let start := p + 1
    let p ← ← strstr h.buf start (ascii "<")
    let buf ← store h.buf p 0
    let text ← stringAt buf start
    some (text ++ [0])

end Acu.Web
