import Acu.Core.CMemory
import Mathlib.Algebra.Ring.Nat

/-!
# Playing a sound file

The thread of `wavplayeralsa` reads the header of a file, and then block after block
until it has read as many bytes as the header says. The loop counts what `fread`
gives it, so that it goes on for ever where the file ends before, and it asks for whole
blocks, so that it plays what stands behind the data when the last block reaches over
them.
-/

namespace Acu.Tools.WavPlayer

open Acu.Core CMemory

def FRAME_SIZE : Nat := 2

/-- `sizeof(struct _header)`, whose members leave no gaps. -/
def headerSize : Nat := 44

/-- A little-endian `int`. -/
def int32 : Bytes → Int
  | b₀ :: b₁ :: b₂ :: b₃ :: _ =>
      let n : Int := b₀.toNat + 256 * b₁.toNat + 65536 * b₂.toNat + 16777216 * b₃.toNat
      if n < 2147483648 then n else n - 4294967296
  | _ => 0

/-- The `header` after the `fread`: where the file is too short it holds what the stack held. -/
def header (stack : CharArray headerSize) (file : Bytes) : Bytes :=
  file.take headerSize ++ stack.val.drop file.length

/-- `header.h3.length`. -/
def dataLength (stack : CharArray headerSize) (file : Bytes) : Int :=
  int32 ((header stack file).drop 40)

/-- The loop between two rounds: what is left of the file, and what has been handed to the
device. -/
structure Playback where
  fp : Bytes
  leavedByte : Int
  played : Bytes

namespace Playback

/-- `fread(buf, 1, buf_size, fp)` and `snd_pcm_writei` of the whole frames. -/
def round (buf_size : Nat) (s : Playback) : Playback :=
  let buf := s.fp.take buf_size
  let count := buf.length
  let write_frame := count / FRAME_SIZE
  { fp := s.fp.drop buf_size
    leavedByte := s.leavedByte - count
    played := s.played ++ buf.take (write_frame * FRAME_SIZE) }

/-- `while(bPlaying && leavedByte > 0)` with nobody clearing the flag, for `fuel` rounds at most. -/
def loop (buf_size : Nat) : Nat → Playback → Option Playback
  | 0, _ => none
  | fuel + 1, s => if 0 < s.leavedByte then loop buf_size fuel (s.round buf_size) else some s

end Playback

/-- `run`: what the device has been handed at its end. The period of the device has `frames`
frames, none when it could not be opened; `prepare` is the result of `snd_pcm_prepare`. -/
def run (frames : Nat) (prepare : Int) (stack : CharArray headerSize) (file : Bytes)
    (fuel : Nat) : Option Bytes :=
  if prepare < 0 then some []
  else
    let buf_size := frames * 2 * 1
    (Playback.loop buf_size fuel ⟨file.drop headerSize, dataLength stack file, []⟩).map
      Playback.played

/-- The thread ends, and has played no more bytes than the header says there are. -/
def PlaysData (frames : Nat) (prepare : Int) (stack : CharArray headerSize) (file : Bytes) :
    Prop :=
  ∃ fuel played, run frames prepare stack file fuel = some played ∧
    played.length ≤ (dataLength stack file).toNat

namespace Playback

section Loop

variable {buf_size : Nat} {s t u : Playback}

theorem loop_unique {fuel fuel' : Nat} (h : loop buf_size fuel s = some t)
    (h' : loop buf_size fuel' s = some u) : t = u := by
  induction fuel generalizing fuel' s with
  | zero => cases h
  | succ fuel ih =>
      cases fuel' with
      | zero => cases h'
      | succ fuel' =>
          rw [loop] at h h'
          by_cases hpos : 0 < s.leavedByte
          · rw [if_pos hpos] at h h'
            exact ih h h'
          · rw [if_neg hpos] at h h'
            exact Option.some.inj (h.symm.trans h')

/-- With something left to read in every round the loop goes on for ever. -/
theorem loop_none {P : Playback → Prop} (hpos : ∀ s, P s → 0 < s.leavedByte)
    (hround : ∀ s, P s → P (s.round buf_size)) (h : P s) (fuel : Nat) :
    loop buf_size fuel s = none := by
  induction fuel generalizing s with
  | zero => rfl
  | succ fuel ih =>
      rw [loop, if_pos (hpos s h)]
      exact ih (hround s h)

theorem round_leavedByte (s : Playback) :
    (s.round buf_size).leavedByte = s.leavedByte - (min buf_size s.fp.length : Nat) := by
  rw [round, List.length_take]

theorem round_fp (s : Playback) : (s.round buf_size).fp.length = s.fp.length - buf_size := by
  rw [round, List.length_drop]

theorem round_played (s : Playback) :
    (s.round buf_size).played.length =
      s.played.length + 2 * (min buf_size s.fp.length / 2) := by
  rw [round, List.length_append, List.length_take, List.length_take, FRAME_SIZE]
  omega

/-- A file that ends before its data do. -/
theorem loop_truncated (h : (s.fp.length : Int) < s.leavedByte) (fuel : Nat) :
    loop buf_size fuel s = none := by
  refine loop_none (P := fun s => (s.fp.length : Int) < s.leavedByte) ?_ ?_ h fuel
  · intro s h
    omega
  · intro s h
    rw [round_leavedByte, round_fp]
    omega

/-- No buffer to read into. -/
theorem loop_no_buffer (h : 0 < s.leavedByte) (fuel : Nat) : loop 0 fuel s = none := by
  refine loop_none (P := fun s => 0 < s.leavedByte) (fun _ h => h) ?_ h fuel
  intro s h
  rw [round_leavedByte, Nat.zero_min]
  simpa using h

/-- The loop on a file that is long enough: it ends, and what it hands over is not too much when
the blocks end where the data do, or the file does. The last block is the one round in which the
two can differ. -/
theorem loop_ends {frames n : Nat} (hframes : 0 < frames) (hn : s.leavedByte = n)
    (hfile : n ≤ s.fp.length) :
    ∃ fuel t, loop (frames * 2) fuel s = some t ∧
      (t.played.length ≤ s.played.length + n ↔
        frames * 2 ∣ n ∨ s.fp.length = n ∨ (s.fp.length = n + 1 ∧ 2 ∣ n)) := by
  induction n using Nat.strongRecOn generalizing s with
  | ind n ih =>
      by_cases hzero : n = 0
      · refine ⟨1, s, ?_, ?_⟩
        · rw [loop, if_neg (by omega)]
        · rw [hzero]
          simp
      · have hpos : 0 < s.leavedByte := by omega
        have hround : (s.round (frames * 2)).leavedByte =
            s.leavedByte - (min (frames * 2) s.fp.length : Nat) := s.round_leavedByte
        have hfp : (s.round (frames * 2)).fp.length = s.fp.length - frames * 2 := s.round_fp
        have hplayed : (s.round (frames * 2)).played.length =
            s.played.length + 2 * (min (frames * 2) s.fp.length / 2) := s.round_played
        by_cases hlast : n ≤ frames * 2
        · -- the last block
          have hend : ¬ 0 < (s.round (frames * 2)).leavedByte := by omega
          refine ⟨2, s.round (frames * 2), ?_, ?_⟩
          · rw [loop, if_pos hpos, loop, if_neg hend]
          · have hdvd : frames * 2 ∣ n ↔ n = frames * 2 := by
              constructor
              · intro h
                exact Nat.le_antisymm hlast (Nat.le_of_dvd (by omega) h)
              · intro h
                exact h ▸ Nat.dvd_refl n
            rw [hdvd, hplayed]
            omega
        · obtain ⟨fuel, t, hloop, htotal⟩ :=
            ih (n - frames * 2) (by omega) (s := s.round (frames * 2)) (by omega) (by omega)
          refine ⟨fuel + 1, t, ?_, ?_⟩
          · rw [loop, if_pos hpos, hloop]
          · have hdvd : frames * 2 ∣ n - frames * 2 ↔ frames * 2 ∣ n :=
              Nat.dvd_sub_self_right.trans (or_iff_left (by omega))
            rw [hdvd, hplayed, hfp] at htotal
            omega

end Loop

end Playback

/-- A file is played as it should be precisely when the device is not ready, or the header counts
no data, or all of them are in the file and the blocks end where they do; the last block may be
cut short by the end of the file. -/
theorem plays_data_iff (frames : Nat) (prepare : Int) (stack : CharArray headerSize)
    (file : Bytes) :
    PlaysData frames prepare stack file ↔
      prepare < 0 ∨ dataLength stack file ≤ 0 ∨
        ∃ n : Nat, dataLength stack file = n ∧ 0 < frames ∧ n ≤ (file.drop headerSize).length ∧
          (frames * 2 ∣ n ∨ (file.drop headerSize).length = n ∨
            ((file.drop headerSize).length = n + 1 ∧ 2 ∣ n)) := by
  rw [PlaysData]
  by_cases hprepare : prepare < 0
  · refine iff_of_true ⟨0, [], ?_, Nat.zero_le _⟩ (.inl hprepare)
    rw [run, if_pos hprepare]
  simp only [run, if_neg hprepare, Nat.mul_one]
  by_cases hnone : dataLength stack file ≤ 0
  · refine iff_of_true ⟨1, [], ?_, Nat.zero_le _⟩ (.inr (.inl hnone))
    rw [Playback.loop, if_neg (by simpa using hnone)]
    rfl
  obtain ⟨n, hn⟩ := Int.eq_ofNat_of_zero_le (show 0 ≤ dataLength stack file by omega)
  have hpos : 0 < n := by omega
  rw [hn, Int.toNat_natCast]
  constructor
  · intro h
    rcases h with ⟨fuel, played, hrun, hle⟩
    obtain ⟨t, hloop, rfl⟩ := Option.map_eq_some_iff.mp hrun
    have hframes : 0 < frames := by
      by_contra hzero
      rw [show frames = 0 by omega, Nat.zero_mul,
        Playback.loop_no_buffer (by simpa using hpos)] at hloop
      cases hloop
    have hfile : n ≤ (file.drop headerSize).length := by
      by_contra hshort
      rw [Playback.loop_truncated (by simpa using hshort)] at hloop
      cases hloop
    obtain ⟨fuel', t', hloop', htotal⟩ := Playback.loop_ends
      (s := ⟨file.drop headerSize, n, []⟩) hframes rfl hfile
    obtain rfl := Playback.loop_unique hloop hloop'
    refine .inr (.inr ⟨n, rfl, hframes, hfile, htotal.mp ?_⟩)
    simpa using hle
  · intro h
    rcases h with h | h | ⟨n', hn', hframes, hfile, hblocks⟩
    · exact absurd h hprepare
    · omega
    · obtain rfl : n = n' := by omega
      obtain ⟨fuel, t, hloop, htotal⟩ := Playback.loop_ends
        (s := ⟨file.drop headerSize, n, []⟩) hframes rfl hfile
      refine ⟨fuel, t.played, by rw [hloop]; rfl, ?_⟩
      simpa using htotal.mpr hblocks

/-- A header that announces four bytes, and none behind it. -/
def truncatedFile : Bytes :=
  ascii "RIFF" ++ [40, 0, 0, 0] ++ ascii "WAVEfmt " ++ [16, 0, 0, 0, 1, 0, 1, 0] ++
    [68, 172, 0, 0, 136, 88, 1, 0, 2, 0, 16, 0] ++ ascii "data" ++ [4, 0, 0, 0]

def emptyHeader : CharArray headerSize := ⟨List.replicate 44 0, by simp [headerSize]⟩

/-- It is played for ever. -/
theorem truncated_never_ends : ¬ PlaysData 32 0 emptyHeader truncatedFile := by
  intro h
  rcases h with ⟨fuel, played, hrun, -⟩
  have hdata : dataLength emptyHeader truncatedFile = 4 := by decide
  have hfile : truncatedFile.drop headerSize = [] := by decide
  rw [run, if_neg (by decide), hdata, hfile] at hrun
  have hstuck : Playback.loop (32 * 2 * 1) fuel ⟨[], 4, []⟩ = none :=
    Playback.loop_truncated (by simp) fuel
  simp only [hstuck] at hrun
  cases hrun

end Acu.Tools.WavPlayer
