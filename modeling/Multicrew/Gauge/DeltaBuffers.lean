import Multicrew.Gauge.Metafile
import Multicrew.Library.Memory

/-!
# The output buffers of the delta coder

`zd_compress1` and `zd_uncompress1` drive the coder until its stream ends and double the output buffer
each time it is full. The coder itself is a parameter that keeps what its header promises: it writes
into the room it is given, and returns `ZD_OK` only if it made progress. A block that is refused is
noticed by the coder alone, which then has no room.
-/

namespace Multicrew.Gauge

open Multicrew.Library

/-- What a call of the coder returns. -/
inductive ZdCode
  | ok
  | streamEnd
  | error
  deriving DecidableEq, Repr

/-- One direction of the coder: `init` takes the reference and the input, if it succeeds; `call` gets
the room for output and returns the next state, the bytes written and the code; `stop` tells whether the
end function returns `ZD_OK`. -/
structure ZdCoder (τ : Type*) where
  init : Bytes → Bytes → Option τ
  call : τ → ℕ → τ × Bytes × ZdCode
  stop : τ → Bool

/-- A `zd_mem_buffer` with the output fields of the `zd_stream` that writes there; positions count from
the start of the block, and what a new block holds is whatever the memory held. -/
structure ZdOutput where
  memory : ℕ → UInt8
  size : ℕ
  nextOut : ℕ := 0
  availOut : ℕ
  totalOut : ℕ := 0

namespace ZdOutput

variable (out : ZdOutput)

/-- The coder writes; `none` beyond the end of the block. -/
def put (block : Bytes) : Option ZdOutput :=
  if out.nextOut + block.length ≤ out.size then
    some { out with
      memory := Memory.write out.memory out.nextOut block
      nextOut := out.nextOut + block.length
      availOut := out.availOut - block.length
      totalOut := out.totalOut + block.length }
  else none

/-- `zd_realloc` by the size of the block; a block that is refused stays as it is. -/
def zdRealloc (allocates : ℕ → Bool) : ZdOutput :=
  let size := if 0 < out.size && allocates (out.size + out.size) then out.size + out.size else out.size
  { out with size := size, availOut := size - out.totalOut }

/-- What `zd_realloc` asks for, which is nothing for an empty block. -/
def asked : List ℕ := if 0 < out.size then [out.size + out.size] else []

/-- The bytes written so far. -/
def written : Bytes := Memory.window out.memory 0 out.totalOut

end ZdOutput

variable {τ : Type*} (k : ZdCoder τ) (allocates : ℕ → Bool)

/-- The loop around the coder; `none` when it writes beyond the block or `fuel` calls are not enough. -/
def zdLoop : ℕ → τ → ZdOutput → Option (τ × ZdOutput × ZdCode)
  | 0, _, _ => none
  | fuel + 1, strm, out =>
    let (strm, block, rval) := k.call strm out.availOut
    match out.put block with
    | none => none
    | some out =>
      match rval with
      | .ok => zdLoop fuel strm (out.zdRealloc allocates)
      | _ => some (strm, out, rval)

/-- From a buffer of `size` bytes to the result: the whole output, or `none` for an error code. The
pointers of a first block that is refused are never set. -/
def zdRun (memory : ℕ → UInt8) (fuel size : ℕ) (strm : τ) : Option (Option Bytes) :=
  if allocates size then
    match zdLoop k allocates fuel strm { memory := memory, size := size, availOut := size } with
    | none => none
    | some (strm, out, .streamEnd) => some (if k.stop strm then some out.written else none)
    | some _ => some none
  else none

/-- The blocks that the loop asks for, call after call. -/
def zdLoopAsked : ℕ → τ → ZdOutput → List ℕ
  | 0, _, _ => []
  | fuel + 1, strm, out =>
    let (strm, block, rval) := k.call strm out.availOut
    match out.put block, rval with
    | some out, .ok => out.asked ++ zdLoopAsked fuel strm (out.zdRealloc allocates)
    | _, _ => []

/-- The blocks that a run asks for, which ends with the first one if that is refused. -/
def zdRunAsked (memory : ℕ → UInt8) (fuel size : ℕ) (strm : τ) : List ℕ :=
  size :: if allocates size then
    zdLoopAsked k allocates fuel strm { memory := memory, size := size, availOut := size }
  else []

/-- `zd_compress1` on the coder of `zd_deflate`. -/
def zdCompress1 (memory : ℕ → UInt8) (fuel : τ → ℕ) (ref tar : Bytes) (dsize : ℕ) :
    Option (Option Bytes) :=
  match k.init ref tar with
  | none => some none
  | some strm =>
    zdRun k allocates memory (fuel strm) (if dsize = 0 then tar.length / 4 + 64 else dsize) strm

/-- `zd_uncompress1` on the coder of `zd_inflate`. -/
def zdUncompress1 (memory : ℕ → UInt8) (fuel : τ → ℕ) (ref delta : Bytes) (tsize : ℕ) :
    Option (Option Bytes) :=
  match k.init ref delta with
  | none => some none
  | some strm =>
    zdRun k allocates memory (fuel strm) (if tsize = 0 then ref.length * 2 + 64 else tsize) strm

/-- The blocks that `zd_compress1` asks for. -/
def zdCompress1Asked (memory : ℕ → UInt8) (fuel : τ → ℕ) (ref tar : Bytes) (dsize : ℕ) : List ℕ :=
  match k.init ref tar with
  | none => []
  | some strm =>
    zdRunAsked k allocates memory (fuel strm) (if dsize = 0 then tar.length / 4 + 64 else dsize) strm

/-- The blocks that `zd_uncompress1` asks for. -/
def zdUncompress1Asked (memory : ℕ → UInt8) (fuel : τ → ℕ) (ref delta : Bytes) (tsize : ℕ) : List ℕ :=
  match k.init ref delta with
  | none => []
  | some strm =>
    zdRunAsked k allocates memory (fuel strm) (if tsize = 0 then ref.length * 2 + 64 else tsize) strm

namespace ZdCoder

/-- What the coder promises for every state: it stays within the room it is given, and `ZD_OK` means
that some input or output is done; `left` counts what is not. -/
structure Bounded (left : τ → ℕ) : Prop where
  fits : ∀ strm avail, (k.call strm avail).2.1.length ≤ avail
  progress : ∀ strm avail, (k.call strm avail).2.2 = .ok → left (k.call strm avail).1 < left strm

/-- What it promises for a state whose output is known: the calls write it piece by piece, and fail
only without room. -/
structure Emits (emits : τ → Bytes → Prop) : Prop where
  more : ∀ strm bytes avail, emits strm bytes → (k.call strm avail).2.2 = .ok →
    ∃ rest, bytes = (k.call strm avail).2.1 ++ rest ∧ emits (k.call strm avail).1 rest
  last : ∀ strm bytes avail, emits strm bytes → (k.call strm avail).2.2 = .streamEnd →
    bytes = (k.call strm avail).2.1 ∧ k.stop (k.call strm avail).1 = true
  room : ∀ strm bytes avail, emits strm bytes → 0 < avail → (k.call strm avail).2.2 ≠ .error

end ZdCoder

variable {k allocates}

/-! ### The loop -/

namespace ZdOutput

/-- The room is what the block has left. -/
structure Fits (out : ZdOutput) : Prop where
  next : out.nextOut = out.totalOut
  avail : out.availOut + out.totalOut = out.size

variable {out : ZdOutput}

/-- Within the room a write succeeds and appends. -/
theorem Fits.put (h : out.Fits) {block : Bytes} (hblock : block.length ≤ out.availOut) :
    ∃ next, out.put block = some next ∧ next.Fits ∧ next.size = out.size ∧
      next.written = out.written ++ block := by
  have hnext := h.next
  have havail := h.avail
  refine ⟨_, if_pos (by omega), ⟨?_, ?_⟩, rfl, ?_⟩
  · exact congrArg (· + block.length) hnext
  · simp only
    omega
  · simp only [written, hnext]
    exact Memory.window_write_end _ _ _

/-- A bigger block has more room, and a refused one is the old one. -/
theorem Fits.zdRealloc (h : out.Fits) (allocates : ℕ → Bool) :
    (out.zdRealloc allocates).Fits ∧ (out.zdRealloc allocates).written = out.written ∧
      (out.zdRealloc allocates).size =
        if 0 < out.size && allocates (out.size + out.size) then out.size + out.size
        else out.size := by
  have havail := h.avail
  refine ⟨⟨h.next, ?_⟩, rfl, rfl⟩
  simp only [ZdOutput.zdRealloc]
  split <;> omega

/-- A block of twice the size has room. -/
theorem Fits.avail_pos {allocates : ℕ → Bool} (h : out.Fits) (hgrown : (out.zdRealloc allocates).Fits)
    (hsize : (out.zdRealloc allocates).size = out.size + out.size) (hpos : 0 < out.size) :
    0 < (out.zdRealloc allocates).availOut := by
  have hbefore := h.avail
  have hafter := hgrown.avail
  have htotal : (out.zdRealloc allocates).totalOut = out.totalOut := rfl
  omega

end ZdOutput

/-- A coder that keeps its promises comes to an end within the buffer. -/
theorem zdLoop_isSome {left : τ → ℕ} (hk : k.Bounded left) {fuel : ℕ} {strm : τ} {out : ZdOutput}
    (hfuel : left strm < fuel) (hout : out.Fits) :
    (zdLoop k allocates fuel strm out).isSome := by
  induction fuel generalizing strm out with
  | zero => omega
  | succ fuel ih =>
    obtain ⟨next, hput, hnext, -, -⟩ := hout.put (hk.fits strm out.availOut)
    have hprogress := hk.progress strm out.availOut
    simp only [zdLoop, hput]
    cases hcode : (k.call strm out.availOut).2.2 with
    | ok =>
      have hless := hprogress hcode
      have hleft : left (k.call strm out.availOut).1 < fuel := by omega
      exact ih hleft (hnext.zdRealloc allocates).1
    | streamEnd => rfl
    | error => rfl

/-- What a loop on a known output comes to: all of it is written, or a block it asked for was refused,
`refused` telling whether one was before. -/
theorem zdLoop_emits {left : τ → ℕ} {emits : τ → Bytes → Prop} (hk : k.Bounded left)
    (hemits : k.Emits emits) (refused : Prop) {fuel : ℕ} {strm : τ} {out : ZdOutput} {bytes : Bytes}
    (hout : out.Fits) (hsize : 0 < out.size) (hstrm : emits strm bytes)
    (hroom : 0 < out.availOut ∨ refused)
    {result : τ × ZdOutput × ZdCode} (hresult : zdLoop k allocates fuel strm out = some result) :
    (result.2.2 = .streamEnd ∧ k.stop result.1 = true ∧
        result.2.1.written = out.written ++ bytes) ∨
      (result.2.2 = .error ∧
        (refused ∨ ∃ n ∈ zdLoopAsked k allocates fuel strm out, allocates n = false)) := by
  induction fuel generalizing strm out bytes refused with
  | zero => cases hresult
  | succ fuel ih =>
    obtain ⟨next, hput, hnext, hsame, hwritten⟩ := hout.put (hk.fits strm out.availOut)
    have hpos : 0 < next.size := hsame ▸ hsize
    simp only [zdLoop, hput] at hresult
    simp only [zdLoopAsked, hput]
    cases hcode : (k.call strm out.availOut).2.2 with
    | ok =>
      simp only [hcode] at hresult
      obtain ⟨rest, rfl, hrest⟩ := hemits.more strm bytes out.availOut hstrm hcode
      obtain ⟨hfits, hkept, hgrown⟩ := hnext.zdRealloc allocates
      have hasked : next.asked = [next.size + next.size] := if_pos hpos
      have hmore : 0 < (next.zdRealloc allocates).availOut ∨
          allocates (next.size + next.size) = false := by
        cases hgranted : allocates (next.size + next.size) with
        | false => exact .inr rfl
        | true =>
          rw [hgranted, Bool.and_true, if_pos (by simpa using hpos)] at hgrown
          exact .inl (hnext.avail_pos hfits hgrown hpos)
      have hgrownPos : 0 < (next.zdRealloc allocates).size := by
        rw [hgrown]
        split <;> omega
      rw [← List.append_assoc, ← hwritten, ← hkept]
      refine (ih _ hfits hgrownPos hrest hmore hresult).imp_right (And.imp_right fun hrefused => .inr ?_)
      simp only [hasked]
      rcases hrefused with hnow | ⟨n, hn, hlater⟩
      · exact ⟨_, List.mem_cons_self .., hnow⟩
      · exact ⟨n, List.mem_cons_of_mem _ hn, hlater⟩
    | streamEnd =>
      simp only [hcode, Option.some.injEq] at hresult
      obtain ⟨hlast, hstop⟩ := hemits.last strm bytes out.availOut hstrm hcode
      subst hresult
      exact .inl ⟨rfl, hstop, by rw [hwritten, ← hlast]⟩
    | error =>
      simp only [hcode, Option.some.injEq] at hresult
      subst hresult
      refine .inr ⟨rfl, .inl (hroom.resolve_left fun havail => ?_)⟩
      exact hemits.room strm bytes out.availOut hstrm havail hcode

/-- For a known output the result is all of it, or an error after a block that was asked for was
refused. -/
theorem zdRun_emits {left : τ → ℕ} {emits : τ → Bytes → Prop} (hk : k.Bounded left)
    (hemits : k.Emits emits) {size : ℕ} {strm : τ} {bytes : Bytes} (hsize : 0 < size)
    (hfirst : allocates size = true) (hstrm : emits strm bytes) (memory : ℕ → UInt8) :
    zdRun k allocates memory (left strm + 1) size strm = some (some bytes) ∨
      (zdRun k allocates memory (left strm + 1) size strm = some none ∧
        ∃ n ∈ zdRunAsked k allocates memory (left strm + 1) size strm, allocates n = false) := by
  have hfits : ({ memory := memory, size := size, availOut := size } : ZdOutput).Fits :=
    ⟨rfl, Nat.add_zero size⟩
  obtain ⟨result, hresult⟩ := Option.isSome_iff_exists.mp
    (@zdLoop_isSome _ k allocates left hk _ strm _ (Nat.lt_succ_self (left strm)) hfits)
  have hcases := zdLoop_emits hk hemits False hfits hsize hstrm (.inl hsize) hresult
  simp only [zdRun, zdRunAsked, hfirst, if_true, hresult]
  rcases hcases with ⟨hcode, hstop, hwritten⟩ | ⟨hcode, hrefused⟩
  · obtain ⟨strm', out, code⟩ := result
    simp only at hcode hstop hwritten
    subst hcode
    refine .inl ?_
    simp only [hstop, if_true, hwritten]
    rfl
  · obtain ⟨strm', out, code⟩ := result
    simp only at hcode
    subst hcode
    obtain ⟨n, hn, hnot⟩ := hrefused.resolve_left id
    exact .inr ⟨rfl, n, List.mem_cons_of_mem _ hn, hnot⟩

/-- With every block granted that is asked for, a known output is the result. -/
theorem zdRun_granted {left : τ → ℕ} {emits : τ → Bytes → Prop} (hk : k.Bounded left)
    (hemits : k.Emits emits) {size : ℕ} {strm : τ} {bytes : Bytes} (hsize : 0 < size)
    (memory : ℕ → UInt8) (hstrm : emits strm bytes)
    (hgranted : ∀ n ∈ zdRunAsked k allocates memory (left strm + 1) size strm, allocates n = true) :
    zdRun k allocates memory (left strm + 1) size strm = some (some bytes) := by
  have hfirst : allocates size = true := hgranted size (List.mem_cons_self ..)
  rcases zdRun_emits hk hemits hsize hfirst hstrm memory with hwhole | ⟨-, n, hn, hrefused⟩
  · exact hwhole
  · rw [hgranted n hn] at hrefused
    cases hrefused

/-- Whatever the coder is given, it comes to an end within the buffer if the first block is granted. -/
theorem zdRun_isSome {left : τ → ℕ} (hk : k.Bounded left) {size : ℕ} (hfirst : allocates size = true)
    (strm : τ) (memory : ℕ → UInt8) :
    (zdRun k allocates memory (left strm + 1) size strm).isSome := by
  have hfits : ({ memory := memory, size := size, availOut := size } : ZdOutput).Fits :=
    ⟨rfl, Nat.add_zero size⟩
  obtain ⟨⟨strm', out, code⟩, hresult⟩ := Option.isSome_iff_exists.mp
    (@zdLoop_isSome _ k allocates left hk _ strm _ (Nat.lt_succ_self (left strm)) hfits)
  simp only [zdRun, hfirst, if_true, hresult]
  cases code <;> rfl

/-! ### The two functions -/

/-- A coder without compression. -/
def ZdCoder.storing : ZdCoder Bytes where
  init _ bytes := some bytes
  call bytes avail :=
    if bytes.length < avail then ([], bytes, .streamEnd)
    else if avail = 0 then (bytes, [], .error)
    else (bytes.drop avail, bytes.take avail, .ok)
  stop _ := true

/-- It stays within its room. -/
theorem ZdCoder.storing_bounded : ZdCoder.storing.Bounded List.length where
  fits bytes avail := by
    simp only [storing]
    split
    · rename_i hless
      exact Nat.le_of_lt hless
    · split
      · exact Nat.zero_le _
      · exact List.length_take_le _ _
  progress bytes avail := by
    simp only [storing]
    split
    · intro h
      cases h
    · split
      · intro h
        cases h
      · intro _
        simp only [List.length_drop]
        omega

/-- It emits its input. -/
theorem ZdCoder.storing_emits : ZdCoder.storing.Emits Eq where
  more bytes bytes' avail := by
    rintro rfl
    simp only [storing]
    split
    · intro h
      cases h
    · split
      · intro h
        cases h
      · exact fun _ => ⟨_, (List.take_append_drop avail bytes).symm, rfl⟩
  last bytes bytes' avail := by
    rintro rfl
    simp only [storing]
    split
    · exact fun _ => ⟨rfl, trivial⟩
    · split <;> intro h <;> cases h
  room bytes bytes' avail := by
    rintro rfl havail
    simp only [storing]
    split
    · intro h
      cases h
    · rw [if_neg (by omega)]
      intro h
      cases h

/-- The first block is not empty. -/
theorem guess_pos (guess size : ℕ) : 0 < if guess = 0 then size + 64 else guess := by
  split <;> omega

section Codec

variable {σ : Type*} (deflate : ZdCoder τ) (inflate : ZdCoder σ) (granted granted' : ℕ → Bool)
  (memory memory' : ℕ → UInt8) (left : τ → ℕ) (left' : σ → ℕ) (dsize tsize : ℕ)

/-- The delta coder of a host and a client, each with its own memory and its own first guess. -/
def Zdelta.ofCoders : Zdelta where
  compress ref tar :=
    (zdCompress1 deflate granted memory (fun strm => left strm + 1) ref tar dsize).join
  uncompress ref delta :=
    (zdUncompress1 inflate granted' memory' (fun strm => left' strm + 1) ref delta tsize).join

variable {deflate inflate granted granted' left left'} {emits : τ → Bytes → Prop}
  {emits' : σ → Bytes → Prop}

end Codec

end Multicrew.Gauge
