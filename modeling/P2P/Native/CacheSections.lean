import P2P.Native.FileManager

/-!
# The critical sections of the disk cache (`FileManager.cpp`)

`read_block` and `write_piece` hold `cache_mutex_` for a part of their work only.
-/

namespace P2P

/-- A file manager with the reads that are on their way: a key and a length for each. -/
structure CacheRun where
  manager : FileManager
  reads : List (CacheKey × Nat) := []

inductive CacheStep where
  | readStart (piece begin length : Nat)
  | readDone (i : Nat) (block : Option Bytes)
  | putBlock (piece offset : Nat) (blockData : Bytes)
  | evictIfNeeded
  | takeDirty
  | writeFile (key : CacheKey) (w : FileWrite)

namespace CacheStep

variable (E : Env)

def start (disk : Nat → Option Bytes) : CacheRun where
  manager := FileManager.start disk

/-- One step; `none` when it is not possible. The lengths of `read_block` are `uint32_t`. -/
def step (r : CacheRun) : CacheStep → Option CacheRun
  | .readStart piece begin length =>
    if length < 2 ^ 32 then
      match r.manager.cached ⟨piece, begin⟩ length with
      | some _ => some { r with manager := r.manager.touchCache ⟨piece, begin⟩ }
      | none => some { r with reads := r.reads ++ [(⟨piece, begin⟩, length)] }
    else none
  | .readDone i block =>
    match r.reads[i]?, block with
    | some (key, length), some block =>
      if block.length = length then
        -- another read may have put the block there by now
        (r.manager.cacheRead E key block).map fun m =>
          { manager := m, reads := r.reads.eraseIdx i }
      else none
    | some _, none => some { r with reads := r.reads.eraseIdx i }
    | none, _ => none
  | .putBlock piece offset blockData =>
    if blockData.length ≤ blockSize then
      (r.manager.putBlock E ⟨piece, offset⟩ blockData).map fun m => { r with manager := m }
    else none
  | .evictIfNeeded => (r.manager.evictIfNeeded E).map fun m => { r with manager := m }
  | .takeDirty => some { r with manager := r.manager.takeDirty.2 }
  | .writeFile key w => some { r with manager := (FileManager.writeFile E key w r.manager).2 }

def run : List CacheStep → CacheRun → Option CacheRun := runSteps (step E)

end CacheStep

end P2P
