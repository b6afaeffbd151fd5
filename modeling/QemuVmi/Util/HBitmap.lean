import QemuVmi.Lib.BitWords

/-!
# Hierarchical bitmaps

`util/hbitmap.c` and `include/qemu/hbitmap.h` on a 64-bit host: seven levels of
64-bit words. Each bit of the last level stands for a group of `2^granularity`
items, and each bit of another level for a word of the next one.

The calls are translated with their types: positions are `uint64_t`s. Inside of a
call they are numbers, since they stay far below `2^64` once the range has been
scaled; shifts by `BITS_PER_LEVEL` are written as divisions by 64, and masks with
`BITS_PER_LONG - 1` as remainders. `none` stands for a failed assertion, and for an
access outside of an array.
-/

namespace QemuVmi.Util

open BitWords

def hbitmapLogMaxSize : Nat := 41

/-- `HBITMAP_LEVELS`: `41 / 6 + 1`. -/
def hbitmapLevels : Nat := 7

/-- `HBitmap`, with its arrays as functions of the level and the index. -/
structure HBitmap where
  size : BitVec 64
  count : BitVec 64
  granularity : Nat
  levels : Nat → Nat → Word

/-- The lengths that `hbitmap_alloc` computes from the last level upwards. -/
def levelWords (size : Nat) : Nat → Nat
  | 0 => size
  | k + 1 => max ((levelWords size k + 63) / 64) 1

section
variable (hb : HBitmap)

def HBitmap.words (level : Nat) : Nat :=
  levelWords hb.size.toNat (hbitmapLevels - level)

/-- `hb->levels[level][i]`. -/
def HBitmap.load (level i : Nat) : Option Word :=
  if i < hb.words level then some (hb.levels level i) else none

/-- `hb->levels[level][i] = w`, once the word is known to exist. -/
def HBitmap.store (level i : Nat) (w : Word) : HBitmap :=
  { hb with levels := fun l j => if l = level ∧ j = i then w else hb.levels l j }

/-- The sentinel, which stops `hbitmap_iter_skip_words` at level 0. -/
def sentinel : Word := 1#64 <<< 63

def hbitmapAlloc (size : BitVec 64) (granularity : Int) : Option HBitmap :=
  if 0 ≤ granularity ∧ granularity < 64 then
    let g := granularity.toNat
    let groups := (size + (1#64 <<< g) - 1#64) >>> g
    if groups.toNat ≤ 2 ^ hbitmapLogMaxSize then
      let hb : HBitmap :=
        { size := groups, count := 0#64, granularity := g, levels := fun _ _ => 0#64 }
      if hb.words 0 = 1 then some (hb.store 0 0 (0#64 ||| sentinel)) else none
    else none
  else none

/-- `HBitmapIter`. The bitmap is passed along, since it may change in between. -/
structure HBitmapIter where
  granularity : Nat
  pos : Nat
  cur : Nat → Word

/-- `hbi->cur[i] = w`. -/
def setCur (cur : Nat → Word) (i : Nat) (w : Word) : Nat → Word := fun j => if j = i then w else cur j

/-- The loop of `hbitmap_iter_init`. -/
def initLevels (hb : HBitmap) : Nat → Nat → (Nat → Word) → Option (Nat → Word)
  | 0, _, cur => some cur
  | i + 1, pos, cur =>
      (hb.load i (pos / 64)).bind fun w =>
        let w := w &&& ~~~ lowMask (pos % 64)
        let w := if i ≠ hbitmapLevels - 1 then w &&& ~~~ (1#64 <<< (pos % 64)) else w
        initLevels hb i (pos / 64) (setCur cur i w)

def hbitmapIterInit (first : BitVec 64) : Option HBitmapIter :=
  let pos := (first >>> hb.granularity).toNat
  if pos < hb.size.toNat then
    (initLevels hb hbitmapLevels pos fun _ => 0#64).map fun cur =>
      { granularity := hb.granularity, pos := pos / 64, cur := cur }
  else none

/-- The first loop of `hbitmap_iter_skip_words`: up to a level with pending bits. -/
def ascend (cur : Nat → Word) : Nat → Nat → Option (Nat × Nat)
  | 0, _ => none
  | i + 1, pos => if cur i = 0#64 then ascend cur i (pos / 64) else some (i, pos / 64)

/-- The second loop: from the word `w` at level `i` down the lowest bits. -/
def descend (hb : HBitmap) : Nat → Nat → Nat → Word → (Nat → Word) → Option (Nat × Word × (Nat → Word))
  | 0, _, pos, w, cur => some (pos, w, cur)
  | n + 1, i, pos, w, cur =>
      if w = 0#64 then none
      else
        (hb.load (i + 1) (64 * pos + w.ctz.toNat)).bind fun w' =>
          descend hb n (i + 1) (64 * pos + w.ctz.toNat) w' (setCur cur i (clearLowest w))

section
variable (hbi : HBitmapIter)

/-- `hbitmap_iter_skip_words`: the next nonzero word, zero at the end. -/
def hbitmapIterSkipWords : Option (Word × HBitmapIter) :=
  (ascend hbi.cur (hbitmapLevels - 1) hbi.pos).bind fun up =>
    if up.1 = 0 ∧ hbi.cur up.1 = sentinel then some (0#64, hbi)
    else
      (descend hb (hbitmapLevels - 1 - up.1) up.1 up.2 (hbi.cur up.1) hbi.cur).bind fun down =>
        if down.2.1 = 0#64 then none
        else some (down.2.1, { hbi with pos := down.1, cur := down.2.2 })

/-- The word that `hbitmap_iter_next` and `hbitmap_iter_next_word` work on. -/
def currentWord : Option (Word × HBitmapIter) :=
  if hbi.cur (hbitmapLevels - 1) = 0#64 then hbitmapIterSkipWords hb hbi
  else some (hbi.cur (hbitmapLevels - 1), hbi)

/-- `hbitmap_iter_next`. The result is an `int64_t`. -/
def hbitmapIterNext : Option (Int × HBitmapIter) :=
  (currentWord hb hbi).map fun r =>
    if r.1 = 0#64 then (-1, r.2)
    else
      let item := BitVec.ofNat 64 (64 * r.2.pos + r.1.ctz.toNat)
      ((item <<< r.2.granularity).toInt,
        { r.2 with cur := setCur r.2.cur (hbitmapLevels - 1) (clearLowest r.1) })

/-- `hbitmap_iter_next_word`: the index of the word, `SIZE_MAX` at the end, and the word. -/
def hbitmapIterNextWord : Option (Nat × Word × HBitmapIter) :=
  (currentWord hb hbi).map fun r =>
    if r.1 = 0#64 then (2 ^ 64 - 1, 0#64, r.2)
    else (r.2.pos, r.1, { r.2 with cur := setCur r.2.cur (hbitmapLevels - 1) 0#64 })
end

/-- The loop of `hb_count_between`. It ends with the first word that is not below
`limit`; the index grows with every word. -/
def countWords (hb : HBitmap) (limit : Nat) : Nat → HBitmapIter → Nat → Option (Nat × Word × Nat)
  | 0, _, _ => none
  | fuel + 1, hbi, count =>
      (hbitmapIterNextWord hb hbi).bind fun r =>
        if limit ≤ r.1 then some (r.1, r.2.1, count)
        else countWords hb limit fuel r.2.2 (count + r.2.1.cpop.toNat)

def hbCountBetween (start last : BitVec 64) : Option (BitVec 64) :=
  let stop := (last + 1#64).toNat
  (hbitmapIterInit hb (start <<< hb.granularity)).bind fun hbi =>
    (countWords hb (stop / 64) (stop / 64 + 1) hbi 0).map fun r =>
      -- drop the bits of the word that are not below the end
      let rest := if r.1 = stop / 64 then (r.2.1 &&& lowMask (stop % 64)).cpop.toNat else 0
      BitVec.ofNat 64 (r.2.2 + rest)

/-- `hb_set_elem`: the new word, and whether it was zero. -/
def hbSetElem (elem : Word) (start last : Nat) : Option (Word × Bool) :=
  if last / 64 = start / 64 ∧ start ≤ last then
    some (elem ||| rangeMask (start % 64) (last % 64), decide (elem = 0#64))
  else none

/-- `hb_reset_elem`: the new word, and whether it became zero. -/
def hbResetElem (elem : Word) (start last : Nat) : Option (Word × Bool) :=
  if last / 64 = start / 64 ∧ start ≤ last then
    let mask := rangeMask (start % 64) (last % 64)
    some (elem &&& ~~~ mask, decide (elem ≠ 0#64 ∧ elem &&& ~~~ mask = 0#64))
  else none

/-- `hb_set_elem` or `hb_reset_elem` on `&hb->levels[level][i]`. -/
def HBitmap.onElem (elemFn : Word → Nat → Nat → Option (Word × Bool))
    (level i start last : Nat) : Option (HBitmap × Bool) :=
  (hb.load level i).bind fun elem =>
    (elemFn elem start last).map fun r => (hb.store level i r.1, r.2)

/-- The loop over the words between the first and the last one. Each becomes `fill`,
and `hit` tells whether that is a change for the level above. -/
def fillWords (fill : Word) (hit : Word → Bool) (level lastpos : Nat) :
    Nat → HBitmap → Nat → Nat → Bool → Option (HBitmap × Nat × Bool)
  | 0, _, _, _, _ => none
  | fuel + 1, hb, i, next, changed =>
      if i + 1 = lastpos then some (hb, next, changed)
      else
        (hb.load level (i + 1)).bind fun elem =>
          fillWords fill hit level lastpos fuel (hb.store level (i + 1) fill) (i + 1) (next + 64)
            (changed || hit elem)

/-- What one level of `hb_set_between` or `hb_reset_between` leaves: whether the level
above is to be updated, and in which range. -/
structure LevelResult where
  hb : HBitmap
  changed : Bool
  pos : Nat
  lastpos : Nat

/-- One level of `hb_set_between`. -/
def setLevel (level start last : Nat) : Option LevelResult :=
  let pos := start / 64
  let lastpos := last / 64
  if pos < lastpos then
    let next := (start ||| 63) + 1
    (hb.onElem hbSetElem level pos start (next - 1)).bind fun first =>
      (fillWords (BitVec.allOnes 64) (fun w => decide (w = 0#64)) level lastpos (lastpos - pos)
          first.1 pos next first.2).bind fun middle =>
        (middle.1.onElem hbSetElem level lastpos middle.2.1 last).map fun final =>
          { hb := final.1, changed := middle.2.2 || final.2, pos := pos, lastpos := lastpos }
  else
    (hb.onElem hbSetElem level pos start last).map fun final =>
      { hb := final.1, changed := final.2, pos := pos, lastpos := lastpos }

/-- One level of `hb_reset_between`. A word at an end of the range that did not become
zero is left out of the range for the level above. When nothing became zero, that
range is not used. -/
def resetLevel (level start last : Nat) : Option LevelResult :=
  let pos := start / 64
  let lastpos := last / 64
  if pos < lastpos then
    let next := (start ||| 63) + 1
    (hb.onElem hbResetElem level pos start (next - 1)).bind fun first =>
      (fillWords 0#64 (fun w => decide (w ≠ 0#64)) level lastpos (lastpos - pos) first.1 pos next
          first.2).bind fun middle =>
        (middle.1.onElem hbResetElem level lastpos middle.2.1 last).map fun final =>
          { hb := final.1, changed := middle.2.2 || final.2
            pos := if first.2 then pos else pos + 1
            lastpos := if final.2 then lastpos else lastpos - 1 }
  else
    (hb.onElem hbResetElem level pos start last).map fun final =>
      { hb := final.1, changed := final.2, pos := pos
        lastpos := if final.2 then lastpos else lastpos - 1 }

/-- The recursion of `hb_set_between` and `hb_reset_between` over the levels. -/
def between (levelFn : HBitmap → Nat → Nat → Nat → Option LevelResult) :
    Nat → HBitmap → Nat → Nat → Option HBitmap
  | 0, hb, start, last => (levelFn hb 0 start last).map (·.hb)
  | level + 1, hb, start, last =>
      (levelFn hb (level + 1) start last).bind fun r =>
        if r.changed then between levelFn level r.hb r.pos r.lastpos else some r.hb

def hbSetBetween : Nat → HBitmap → Nat → Nat → Option HBitmap := between setLevel

def hbResetBetween : Nat → HBitmap → Nat → Nat → Option HBitmap := between resetLevel

def hbitmapSet (start count : BitVec 64) : Option HBitmap :=
  let last := (start + count - 1#64) >>> hb.granularity
  let start := start >>> hb.granularity
  (hbCountBetween hb start last).bind fun counted =>
    hbSetBetween (hbitmapLevels - 1)
      { hb with count := hb.count + (last - start + 1#64 - counted) } start.toNat last.toNat

def hbitmapReset (start count : BitVec 64) : Option HBitmap :=
  let last := (start + count - 1#64) >>> hb.granularity
  let start := start >>> hb.granularity
  (hbCountBetween hb start last).bind fun counted =>
    hbResetBetween (hbitmapLevels - 1) { hb with count := hb.count - counted } start.toNat last.toNat

def hbitmapGet (item : BitVec 64) : Option Bool :=
  let pos := (item >>> hb.granularity).toNat
  (hb.load (hbitmapLevels - 1) (pos / 64)).map fun w => w &&& (1#64 <<< (pos % 64)) != 0#64

def hbitmapEmpty : Bool := hb.count == 0#64
end

end QemuVmi.Util
