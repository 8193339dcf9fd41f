import WireSchema.Proofs.Value.Delimiting
import WireSchema.Proofs.Value.Filling
import WireSchema.Value.Stream

/-! Streams on one buffer. Items that are filled in one after the other only ever add to the buffer,
each the same bytes whatever is there already; and items that can be read alone are read one after
the other behind whatever was there, each from its own bytes. -/

namespace WireSchema.Catalog

open Reader (Reads Takes)

variable {c : Catalog} {item : Item} {items : List Item} {w : Value} {ws : List Value}

/-- Fills in items one after the other, also behind one that fails: how each ends, and the buffer
then. -/
def fillStream (c : Catalog) : List Item → List UInt8 → List (Except EncodeError Unit × List UInt8)
  | [], _ => []
  | item :: rest, buffer =>
    let done := (c.fill item.value item.shape).on buffer
    done :: c.fillStream rest done.2

/-- The buffer in the end. -/
def filled (c : Catalog) (items : List Item) (buffer : List UInt8) : List UInt8 :=
  ((c.fillStream items buffer).map Prod.snd).getLastD buffer

/-- The item, alone, is read as `w` from its own bytes, and none is left over. -/
def ReadsAlone (c : Catalog) (item : Item) (w : Value) : Prop :=
  ∃ stop, Reads (c.readItem item.shape) (.start (c.writeItem item).written) w stop ∧
    stop.remaining = 0

theorem streamBytes_cons (item : Item) (items : List Item) :
    c.streamBytes (item :: items) = (c.writeItem item).written ++ c.streamBytes items :=
  List.flatMap_cons

/-! ### Filling in -/

theorem fillStream_cons (item : Item) (items : List Item) (before : List UInt8) :
    c.fillStream (item :: items) before =
      ((c.writeItem item).result, before ++ (c.writeItem item).written) ::
        c.fillStream items (before ++ (c.writeItem item).written) := by
  rw [fillStream, fill_on]
  rfl

/-- Each item ends as if it were alone, and behind it the buffer has what was there before, and the
bytes of the items so far. -/
theorem getElem?_fillStream (items : List Item) (before : List UInt8) (i : Nat) :
    (c.fillStream items before)[i]? = items[i]?.map fun item =>
      ((c.writeItem item).result, before ++ c.streamBytes (items.take (i + 1))) := by
  induction items generalizing before i with
  | nil => rfl
  | cons item items ih =>
    rw [fillStream_cons]
    cases i with
    | zero => simp [streamBytes, writeStream]
    | succ i => simp [ih, streamBytes_cons]

theorem filled_eq (items : List Item) (before : List UInt8) :
    c.filled items before = before ++ c.streamBytes items := by
  induction items generalizing before with
  | nil => exact (List.append_nil before).symm
  | cons item items ih =>
    rw [filled, fillStream_cons, List.map_cons, List.getLastD_cons,
      streamBytes_cons, ← List.append_assoc]
    exact ih _

/-! ### Reading -/

/-- An item that is read alone is read in the same way among others. -/
theorem ReadsAlone.takes (h : c.ReadsAlone item w) :
    Takes (c.readItem item.shape) (c.writeItem item).written w := by
  obtain ⟨stop, hread, hstop⟩ := h
  obtain ⟨bs, -, hrest, -, hbs⟩ := delimited_readWithin maxDepth item.shape hread
  obtain rfl : (c.writeItem item).written = bs := by
    rw [List.length_eq_zero_iff.mp hstop, List.append_nil] at hrest
    exact hrest
  exact hbs.takes

theorem start_advance (before bs : List UInt8) :
    (Cursor.start (before ++ bs)).advance before.length = ⟨before.length, bs⟩ := by
  simp [Cursor.start, Cursor.advance]

/-- Reading the first item of a stream stops behind its own bytes. -/
theorem ReadsAlone.reads (h : c.ReadsAlone item w) (before : List UInt8) (items : List Item) :
    let total := Cursor.start (before ++ c.streamBytes (item :: items))
    Reads (c.readItem item.shape) (total.advance before.length) w
      (total.advance (before ++ (c.writeItem item).written).length) := by
  intro total
  have htotal : total = .start ((before ++ (c.writeItem item).written) ++ c.streamBytes items) := by
    rw [List.append_assoc, ← streamBytes_cons]
  have hstop := start_advance (before ++ (c.writeItem item).written) (c.streamBytes items)
  rw [start_advance, streamBytes_cons, htotal, hstop, List.length_append]
  exact h.takes before.length (c.streamBytes items)

theorem readStream_eq (h : List.Forall₂ c.ReadsAlone items ws) (before : List UInt8) :
    let total := Cursor.start (before ++ c.streamBytes items)
    let outcomes := c.readStream (items.map Item.shape) (total.advance before.length)
    outcomes.map (fun o => (o.result, o.cursor)) =
        List.zipWith (fun w done => (.ok w, total.advance done.2.length)) ws
          (c.fillStream items before) ∧
      ((outcomes.map (·.cursor)).getLastD (total.advance before.length)).remaining = 0 := by
  induction h generalizing before with
  | nil =>
    refine ⟨rfl, ?_⟩
    show ((Cursor.start (before ++ [])).advance before.length).remaining = 0
    rw [start_advance]
    rfl
  | @cons item w items ws hitem _ ih =>
    intro total outcomes
    obtain ⟨hresult, hcursor⟩ := hitem.reads before items
    -- the other items are a stream behind the bytes of the first
    obtain ⟨houtcomes, hlast⟩ := ih (before ++ (c.writeItem item).written)
    rw [List.append_assoc, ← streamBytes_cons] at houtcomes hlast
    have hcons : outcomes = c.readItem item.shape (total.advance before.length) ::
        c.readStream (items.map Item.shape)
          (total.advance (before ++ (c.writeItem item).written).length) := by
      rw [← hcursor]
      rfl
    rw [hcons, fillStream_cons, List.map_cons, List.map_cons, List.zipWith_cons_cons,
      List.getLastD_cons, hresult, hcursor]
    exact ⟨congrArg _ houtcomes, hlast⟩

/-- Streams on one buffer, whatever it holds before. Each item leaves what is there in place and
adds bytes that are its own, whether it fails or not. And items that are read alone, each from all
of its own bytes, are read one after the other from the whole buffer, behind what it held before:
each stops where the buffer ended when the item was filled in, and in the end nothing is left. -/
theorem fillStream_readStream (c : Catalog) (items : List Item) (before : List UInt8) :
    (∀ i, (c.fillStream items before)[i]? = items[i]?.map fun item =>
      ((c.writeItem item).result, before ++ c.streamBytes (items.take (i + 1)))) ∧
    ∀ ws, List.Forall₂ c.ReadsAlone items ws →
      let total := Cursor.start (c.filled items before)
      let outcomes := c.readStream (items.map Item.shape) (total.advance before.length)
      outcomes.map (fun o => (o.result, o.cursor)) =
          List.zipWith (fun w done => (.ok w, total.advance done.2.length)) ws
            (c.fillStream items before) ∧
        ((outcomes.map (·.cursor)).getLastD (total.advance before.length)).remaining = 0 := by
  refine ⟨getElem?_fillStream items before, fun ws h => ?_⟩
  rw [filled_eq]
  exact readStream_eq h before

/-- A message with the member of a deprecated field, an array, and a float that is read as zero,
behind two bytes. -/
theorem fillStream_readStream_three :
    let c : Catalog :=
      ⟨[⟨"M", .message, [⟨"x", .int, false, false, 1⟩, ⟨"old", .int, false, true, 2⟩]⟩]⟩
    let items : List Item :=
      [⟨.one (.definition 0), .object "M" [("old", .bool true), ("x", .int (-3))]⟩,
        ⟨.many .uint, .array [.uint 7, .uint 300]⟩, ⟨.one .float, .float ⟨1⟩⟩]
    let ws : List Value := [.object "M" [("x", .int (-3))], .array [.uint 7, .uint 300], .float ⟨0⟩]
    List.Forall₂ c.ReadsAlone items ws ∧
      (c.fillStream items [1, 5]).map Prod.snd =
        [[1, 5, 1, 5, 0], [1, 5, 1, 5, 0, 2, 7, 172, 2], [1, 5, 1, 5, 0, 2, 7, 172, 2, 0]] ∧
      (c.readStream (items.map Item.shape) ⟨2, [1, 5, 0, 2, 7, 172, 2, 0]⟩).map
          (fun o => (o.result, o.cursor)) =
        [(.ok ws[0], ⟨5, [2, 7, 172, 2, 0]⟩), (.ok ws[1], ⟨9, [0]⟩), (.ok ws[2], ⟨10, []⟩)] := by
  intro c items ws
  have hws : List.Forall₂ c.ReadsAlone items ws :=
    .cons ⟨⟨3, []⟩, ⟨rfl, rfl⟩, rfl⟩
      (.cons ⟨⟨4, []⟩, ⟨rfl, rfl⟩, rfl⟩ (.cons ⟨⟨1, []⟩, ⟨rfl, rfl⟩, rfl⟩ .nil))
  obtain ⟨hfilled, hread⟩ := fillStream_readStream c items [1, 5]
  have hstream : c.fillStream items [1, 5] =
      [(.ok (), [1, 5, 1, 5, 0]), (.ok (), [1, 5, 1, 5, 0, 2, 7, 172, 2]),
        (.ok (), [1, 5, 1, 5, 0, 2, 7, 172, 2, 0])] := by
    apply List.ext_getElem?
    intro i
    rw [hfilled]
    match i with
    | 0 | 1 | 2 => rfl
    | i + 3 => rfl
  refine ⟨hws, by rw [hstream]; rfl, ?_⟩
  have hall := (hread ws hws).1
  rw [filled, hstream] at hall
  exact hall

end WireSchema.Catalog
