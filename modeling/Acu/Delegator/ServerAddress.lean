import Acu.Core.CopyText
import Acu.Core.Decimal
import Acu.Core.Search
import Acu.Tools.Network

/-!
# The address of the server

The constructor of `MainDelegator` cuts the host out of `Server::URL`: twenty bytes
behind `http://` up to the first colon. The port is a constant.
-/

namespace Acu.Delegator

open Acu.Core Acu.Core.CMemory Tools Tools.Network

/-- What `WebService` keeps of its server. -/
structure WebService where
  m_serverIP : CharArray 16
  m_port : Int

/-- `WebService(ip, port)`; the address is copied without a look at its length. -/
def WebService.new (m_serverIP : CharArray 16) (ip : Bytes) (port : Int) : Option WebService := do
  let m_serverIP ← copyText m_serverIP (← cstring ip)
  some ⟨m_serverIP, port⟩

/-- The loop over the array: the first colon is overwritten with a NUL. -/
def cutColon : Bytes → Bytes
  | [] => []
  | c :: cs => if c = 58 then 0 :: cs else c :: cutColon cs

/-- `m_ws` as the constructor makes it, with the arrays in memory that holds anything. -/
def serverOf (ip : CharArray 21) (m_serverIP : CharArray 16) (m_sServerURL : Bytes) :
    Option WebService :=
  WebService.new m_serverIP
    (cutColon (strncpy ip (m_sServerURL.drop 7) 20 (by decide)).val) 8080

/-! ## Addresses of servers -/

/-- `http://HOST[:PORT][/PATH]`. -/
structure Url where
  host : { s : Bytes // Address s }
  port : Option { ds : Bytes // ds ≠ [] ∧ ∀ c ∈ ds, isDigit c = true }
  path : Option { s : Bytes // 0 ∉ s }

namespace Url

def portText (u : Url) : Bytes :=
  match u.port with
  | none => []
  | some ds => 58 :: ds.val

def pathText (u : Url) : Bytes :=
  match u.path with
  | none => []
  | some s => 47 :: s.val

def text (u : Url) : Bytes := ascii "http://" ++ (u.host.val ++ (u.portText ++ u.pathText))

/-- The server that is named: the whole host, and the port where there is one. -/
def Names (u : Url) (ws : WebService) : Prop :=
  cstring ws.m_serverIP.val = some u.host.val ∧
    ∀ ds, u.port = some ds → ws.m_port = digitsValue 0 ds.val

/-- A port that is the constant, or a host that nothing follows. -/
def Plain (u : Url) : Prop :=
  match u.port with
  | some ds => digitsValue 0 ds.val = 8080
  | none => u.path = none

end Url

section Cut

variable {s : Bytes}

theorem group_letters {g : Bytes} (h : Group g) : 58 ∉ g ∧ 0 ∉ g := by
  constructor
  · intro hc
    exact absurd (h.digits 58 hc) (by decide)
  · intro hc
    exact absurd (h.digits 0 hc) (by decide)

theorem address_letters (h : Address s) : 58 ∉ s ∧ 0 ∉ s ∧ s.length < 16 := by
  obtain ⟨a, b, c, d, ha, hb, hc, hd, rfl⟩ := h
  have hla := ha.le
  have hlb := hb.le
  have hlc := hc.le
  have hld := hd.le
  refine ⟨?_, ?_, ?_⟩
  · simp only [List.mem_append, List.mem_cons, not_or]
    exact ⟨(group_letters ha).1, by decide, (group_letters hb).1, by decide,
      (group_letters hc).1, by decide, (group_letters hd).1⟩
  · simp only [List.mem_append, List.mem_cons, not_or]
    exact ⟨(group_letters ha).2, by decide, (group_letters hb).2, by decide,
      (group_letters hc).2, by decide, (group_letters hd).2⟩
  · simp only [List.length_append, List.length_cons]
    omega

theorem cutColon_append (h : 58 ∉ s) (rest : Bytes) :
    cutColon (s ++ rest) = s ++ cutColon rest := by
  induction s with
  | nil => rfl
  | cons c cs ih =>
      rw [List.mem_cons, not_or] at h
      rw [List.cons_append, cutColon, if_neg (Ne.symm h.1), ih h.2, List.cons_append]

/-- What a bounded copy keeps of a text that begins so. -/
theorem strncpy_begin (ip : CharArray 21) (src s : Bytes) (c : UInt8) (rest : Bytes)
    (hs : s.length < 20) (hsrc : src ++ List.replicate 20 0 = s ++ c :: rest) :
    ∃ behind, (strncpy ip src 20 (by decide)).val = s ++ c :: behind := by
  have hval : (strncpy ip src 20 (by decide)).val =
      (src ++ List.replicate 20 0).take 20 ++ ip.val.drop 20 := rfl
  obtain ⟨k, hk⟩ : ∃ k, 20 - s.length = k + 1 := ⟨20 - s.length - 1, by omega⟩
  refine ⟨rest.take k ++ ip.val.drop 20, ?_⟩
  rw [hval, hsrc, List.take_append, List.take_of_length_le (Nat.le_of_lt hs), hk,
    List.take_succ_cons, List.append_assoc, List.cons_append]

end Cut

section Server

variable (ip : CharArray 21) (m_serverIP : CharArray 16) (u : Url)

theorem drop_scheme : u.text.drop 7 = u.host.val ++ (u.portText ++ u.pathText) :=
  @List.drop_left _ (ascii "http://") _

/-- The array as the loop leaves it, by the letter that follows the host. -/
theorem cut_eq (c : UInt8) (rest : Bytes)
    (h : u.portText ++ u.pathText ++ List.replicate 20 0 = c :: rest) :
    ∃ behind, cutColon (strncpy ip (u.text.drop 7) 20 (by decide)).val =
      u.host.val ++ cutColon (c :: behind) := by
  obtain ⟨hcolon, -, hlength⟩ := address_letters u.host.property
  obtain ⟨behind, hval⟩ := strncpy_begin ip (u.text.drop 7) u.host.val c rest (by omega)
    (by rw [drop_scheme, List.append_assoc, h])
  exact ⟨behind, by rw [hval, cutColon_append hcolon]⟩

theorem serverOf_host {behind : Bytes}
    (h : cutColon (strncpy ip (u.text.drop 7) 20 (by decide)).val = u.host.val ++ 0 :: behind) :
    ∃ ws, serverOf ip m_serverIP u.text = some ws ∧
      cstring ws.m_serverIP.val = some u.host.val ∧ ws.m_port = 8080 := by
  obtain ⟨-, h0, hlength⟩ := address_letters u.host.property
  refine ⟨⟨put m_serverIP u.host.val hlength, 8080⟩, ?_, cstring_put m_serverIP hlength h0, rfl⟩
  rw [serverOf, h, WebService.new, cstring_append_nul _ _ h0]
  simp only [Option.bind_eq_bind, Option.bind_some, copyText_of_lt m_serverIP hlength]

/-- A path that follows the host at once stays part of the address. -/
theorem serverOf_path {behind : Bytes} {ws : WebService}
    (h : cutColon (strncpy ip (u.text.drop 7) 20 (by decide)).val = u.host.val ++ 47 :: behind)
    (hws : serverOf ip m_serverIP u.text = some ws) :
    cstring ws.m_serverIP.val ≠ some u.host.val := by
  obtain ⟨-, h0, -⟩ := address_letters u.host.property
  rw [serverOf, h, WebService.new, cstring_append h0] at hws
  obtain ⟨text, htext, hws⟩ := Option.bind_eq_some_iff.mp hws
  obtain ⟨rest, hrest, rfl⟩ := Option.map_eq_some_iff.mp htext
  obtain ⟨copied, hcopied, hws⟩ := Option.bind_eq_some_iff.mp hws
  cases hws
  unfold copyText at hcopied
  split at hcopied
  next hroom =>
    cases hcopied
    have hmem := (cstring_eq_some hrest).1
    rw [cstring_put m_serverIP hroom (by rw [List.mem_append, not_or]; exact ⟨h0, hmem⟩)]
    intro heq
    have hempty := List.append_right_eq_self.mp (Option.some.inj heq)
    rw [hempty] at hrest
    obtain ⟨-, tail, htail⟩ := cstring_eq_some hrest
    cases htail
  next => cases hcopied

/-- The server is the one that the address names precisely where the port is written and is the
constant, or neither port nor path is written. -/
theorem serverOf_names_iff :
    (∃ ws, serverOf ip m_serverIP u.text = some ws ∧ u.Names ws) ↔ u.Plain := by
  unfold Url.Names Url.Plain
  cases hport : u.port with
  | some ds =>
      obtain ⟨behind, hcut⟩ := cut_eq ip u 58 (ds.val ++ u.pathText ++ List.replicate 20 0)
        (by rw [Url.portText, hport]; simp)
      rw [cutColon, if_pos rfl] at hcut
      obtain ⟨ws, hws, hhost, h8080⟩ := serverOf_host ip m_serverIP u hcut
      simp only [Option.some.injEq, forall_eq']
      constructor
      · rintro ⟨ws', hws', -, hvalue⟩
        cases hws.symm.trans hws'
        rw [h8080] at hvalue
        omega
      · intro hvalue
        refine ⟨ws, hws, hhost, ?_⟩
        rw [h8080, hvalue]
        rfl
  | none =>
      simp only [reduceCtorEq, false_implies, implies_true, and_true]
      cases hpath : u.path with
      | none =>
          obtain ⟨behind, hcut⟩ := cut_eq ip u 0 (List.replicate 19 0)
            (by rw [Url.portText, Url.pathText, hport, hpath]; rfl)
          rw [cutColon, if_neg (by decide)] at hcut
          obtain ⟨ws, hws, hhost, -⟩ := serverOf_host ip m_serverIP u hcut
          exact iff_of_true ⟨ws, hws, hhost⟩ rfl
      | some path =>
          obtain ⟨behind, hcut⟩ := cut_eq ip u 47 (path.val ++ List.replicate 20 0)
            (by rw [Url.portText, Url.pathText, hport, hpath]; rfl)
          rw [cutColon, if_neg (by decide)] at hcut
          refine iff_of_false ?_ nofun
          rintro ⟨ws, hws, hhost⟩
          exact serverOf_path ip m_serverIP u hcut hws hhost

/-- The gate's own server without its port. -/
def bareHost : Url := ⟨⟨ascii "10.9.0.2", gate_address⟩, none, some ⟨ascii "WebService", by decide⟩⟩

theorem path_in_address :
    ¬ ∃ ws, serverOf ⟨List.replicate 21 0, List.length_replicate⟩
      ⟨List.replicate 16 0, List.length_replicate⟩ bareHost.text = some ws ∧ bareHost.Names ws := by
  rintro ⟨ws, hws, hhost, -⟩
  obtain ⟨behind, hcut⟩ := cut_eq ⟨List.replicate 21 0, List.length_replicate⟩ bareHost 47
    (ascii "WebService" ++ List.replicate 20 0) rfl
  rw [cutColon, if_neg (by decide)] at hcut
  exact serverOf_path _ _ bareHost hcut hws hhost

end Server

end Acu.Delegator
