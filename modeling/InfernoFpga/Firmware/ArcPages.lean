import InfernoFpga.Firmware.ArcDecode

/-!
# ArcPages — a page of a list decodes to its items

The loop over a page is followed once, for any kind of item: what an item appends and writes into
its slot means the item, and goes on meaning it while the page grows.
-/

namespace InfernoFpga
namespace Firmware

open Lib
open Mdns (rd16 rd16_at)

/-! ## A page -/

section Page

variable {σ : Type} {item : Nat → σ → ArcMsg → Option (σ × ArcMsg × List Nat)}
  {read : List UInt8 → Nat → Option ArcItem} {size room limit : Nat}
  {Inv : Nat → σ → List UInt8 → Prop} {want : Nat → Option ArcItem}

/-- Where what the slots point at begins. -/
abbrev tailAt (size room : Nat) : Nat := slotsAt + size * room

/-- The items of a list are what `want` says: an index with nothing is skipped, any other appends
what its slot points at.  `Inv n c tail` is what holds of the tail behind `n` items; it bounds the
size of the message. -/
structure Lists (item : Nat → σ → ArcMsg → Option (σ × ArcMsg × List Nat))
    (read : List UInt8 → Nat → Option ArcItem) (size room limit : Nat)
    (Inv : Nat → σ → List UInt8 → Prop) (want : Nat → Option ArcItem) : Prop where
  skip : ∀ idx c m, want idx = none → item idx c m = none
  put : ∀ idx c m tail n x, 1 ≤ idx → idx ≤ limit → n < room → want idx = some x →
    m.len = tailAt size room + tail.length → Inv n c tail →
      ∃ c' blob fields, item idx c m = some (c', m.put blob, fields) ∧
        (fieldBytes fields).length = size ∧
        Means read (tailAt size room) (tail ++ blob) (fieldBytes fields) x ∧
        Inv (n + 1) c' (tail ++ blob)
  short : ∀ n c tail, n ≤ room → Inv n c tail →
    tailAt size room + tail.length < packetSizeSoftLimit

/-- A page under construction: `slots` are filled and mean `xs`. -/
structure Filled (front : List UInt8) (read : List UInt8 → Nat → Option ArcItem) (size room : Nat)
    (m : ArcMsg) (pg : Page) (xs : List ArcItem) (tail : List UInt8) : Prop where
  laid : ∃ slots, Laid front size room m.buf slots tail ∧
    List.Forall₂ (Means read (front.length + size * room) tail) slots xs
  front : front.length = slotsAt
  page : pg = ⟨slotsAt, size, room, xs.length⟩

/-- A message with a filled page ends with its tail. -/
theorem Filled.len {front tail : List UInt8} {m : ArcMsg} {pg : Page} {xs : List ArcItem}
    (h : Filled front read size room m pg xs tail) :
    m.len = tailAt size room + tail.length := by
  obtain ⟨slots, hlaid, -⟩ := h.laid
  rw [ArcMsg.len, hlaid.length, h.front]

/-- One slot more. -/
theorem Filled.put {front tail blob : List UInt8} {m : ArcMsg} {pg : Page} {xs : List ArcItem}
    {x : ArcItem} {fields : List Nat} (h : Filled front read size room m pg xs tail)
    (hroom : pg.actual < pg.space) (hsize : (fieldBytes fields).length = size)
    (hx : Means read (tailAt size room) (tail ++ blob) (fieldBytes fields) x) :
    Filled front read size room ((m.put blob).store (pageSlot pg) (fieldBytes fields))
      { pg with actual := pg.actual + 1 } (xs ++ [x]) (tail ++ blob) := by
  obtain ⟨⟨slots, hlaid, hxs⟩, hfront, rfl⟩ := h
  have hcount := hxs.length_eq
  refine ⟨⟨slots ++ [fieldBytes fields], ?_, ?_⟩, hfront, ?_⟩
  · have hput := (hlaid.append blob).put (by rw [hcount]; exact hroom) hsize
    rw [hfront, hcount] at hput
    exact hput
  · refine List.rel_append (hxs.imp fun _ _ hmeans => hmeans.append blob) (.cons ?_ .nil)
    rw [hfront]
    exact hx
  · rw [List.length_append]
    rfl

/-- The loop fills slots for the next `t` indices, and stops early only when there is no room. -/
theorem pageLoop_lists (h : Lists item read size room limit Inv want) {front : List UInt8} (k : Nat)
    {idx : Nat} {c : σ} {m : ArcMsg} {pg : Page} {xs : List ArcItem} {tail : List UInt8}
    (hfilled : Filled front read size room m pg xs tail) (hinv : Inv xs.length c tail)
    (hidx : 1 ≤ idx) (hk : k = 0 ∨ idx + k = limit + 1) (hle : xs.length ≤ room) :
    ∃ t ys m' tail', t ≤ k ∧ ys = (List.range' idx t).filterMap want ∧
      pageLoop item k idx c m pg =
        (idx + t, m', ⟨slotsAt, size, room, (xs ++ ys).length⟩) ∧
      Filled front read size room m' ⟨slotsAt, size, room, (xs ++ ys).length⟩ (xs ++ ys) tail' ∧
      tailAt size room + tail'.length < packetSizeSoftLimit ∧ (xs ++ ys).length ≤ room ∧
      (t < k → (xs ++ ys).length = room) := by
  induction k generalizing idx c m pg xs tail with
  | zero =>
    refine ⟨0, [], m, tail, Nat.le_refl _, rfl, ?_, ?_, h.short _ _ _ hle hinv, ?_, ?_⟩
    · rw [List.append_nil, pageLoop, hfilled.page]
      rfl
    · rw [List.append_nil, ← hfilled.page]
      exact hfilled
    · rwa [List.append_nil]
    · exact fun hlt => absurd hlt (Nat.lt_irrefl 0)
  | succ k ih =>
    have hlimit : idx ≤ limit := by omega
    by_cases hroom : pg.actual < pg.space
    · have hlt : xs.length < room := by
        rw [hfilled.page] at hroom
        exact hroom
      cases hwant : want idx with
      | none =>
        -- an index with nothing: the loop goes on as it was
        obtain ⟨t, ys, m', tail', ht, hys, hloop, hrest⟩ :=
          ih hfilled hinv (by omega : 1 ≤ idx + 1) (by omega) hle
        refine ⟨t + 1, ys, m', tail', by omega, ?_, ?_, hrest.1, hrest.2.1, hrest.2.2.1,
          fun hlt' => hrest.2.2.2 (by omega)⟩
        · rw [List.range'_succ, List.filterMap_cons, hwant, hys]
        · rw [pageLoop, if_pos hroom, h.skip idx c m hwant]
          simp only [hloop]
          rw [Nat.add_assoc, Nat.add_comm 1 t]
      | some x =>
        obtain ⟨c', blob, fields, hitem, hsize, hx, hinv'⟩ :=
          h.put idx c m tail xs.length x hidx hlimit hlt hwant hfilled.len hinv
        have hput := hfilled.put hroom hsize hx
        have hcount : xs.length + 1 = (xs ++ [x]).length := by
          rw [List.length_append, List.length_singleton]
        rw [hcount] at hinv'
        obtain ⟨t, ys, m', tail', ht, hys, hloop, hfill, hshort, hfits, hstop⟩ :=
          ih hput hinv' (by omega : 1 ≤ idx + 1) (by omega) (by omega)
        have hcat : xs ++ [x] ++ ys = xs ++ x :: ys := by
          rw [List.append_assoc, List.singleton_append]
        have hsoft : ¬ packetSizeSoftLimit ≤
            ((m.put blob).store (pageSlot pg) (fieldBytes fields)).len := by
          rw [hput.len]
          exact Nat.not_le_of_lt (h.short _ _ _ (by omega) hinv')
        rw [hcat] at hloop hfill hfits hstop
        refine ⟨t + 1, x :: ys, m', tail', by omega, ?_, ?_, hfill, hshort, hfits,
          fun hlt' => hstop (by omega)⟩
        · rw [List.range'_succ, List.filterMap_cons, hwant, hys]
        · rw [pageLoop, if_pos hroom, hitem]
          simp only [if_neg hsoft, hloop]
          rw [Nat.add_assoc, Nat.add_comm 1 t]
    · -- no room
      have hfull : xs.length = room := by
        rw [hfilled.page] at hroom
        exact Nat.le_antisymm hle (Nat.le_of_not_lt hroom)
      refine ⟨0, [], m, tail, Nat.zero_le _, rfl, ?_, ?_, h.short _ _ _ hle hinv, ?_, ?_⟩
      · rw [List.append_nil, pageLoop, if_neg hroom, ← hfilled.page]
        rfl
      · rw [List.append_nil, ← hfilled.page]
        exact hfilled
      · rwa [List.append_nil]
      · exact fun _ => by rw [List.append_nil, hfull]

/-- The message when its page has been counted and its header patched. -/
theorem buf_finish (req : Mem) (space count : UInt8) (rest : List UInt8) (code : Nat) :
    (((⟨danteHeader req ++ [space, 0] ++ rest⟩ : ArcMsg).store (danteHdrLen + 1) [count]).finish
        code).buf =
      [req 0, req 1] ++ Mem.be16 (slotsAt + rest.length) ++ [req 4, req 5, req 6, req 7] ++
        Mem.be16 code ++ [space] ++ [count] ++ rest := by
  have hcount : (⟨danteHeader req ++ [space, 0] ++ rest⟩ : ArcMsg).store (danteHdrLen + 1) [count] =
      ⟨danteHeader req ++ [space, count] ++ rest⟩ := rfl
  have hlen : (⟨danteHeader req ++ [space, count] ++ rest⟩ : ArcMsg).len = slotsAt + rest.length := by
    rw [ArcMsg.len, List.length_append]
    rfl
  rw [hcount, ArcMsg.finish, hlen]
  rfl

/-- What a decoder finds in front of the slots. -/
theorem read_finish {req : Mem} {space count : UInt8} {rest : List UInt8} {code : Nat}
    (hlen : slotsAt + rest.length < 65536) (hcode : code < 65536) {buf : List UInt8}
    (hbuf : buf = [req 0, req 1] ++ Mem.be16 (slotsAt + rest.length) ++
      [req 4, req 5, req 6, req 7] ++ Mem.be16 code ++ [space] ++ [count] ++ rest) :
    buf.length = slotsAt + rest.length ∧ rd16 buf 2 = buf.length ∧ rd16 buf 8 = code ∧
      buf.getD danteHdrLen 0 = space ∧ buf.getD (danteHdrLen + 1) 0 = count := by
  have htotal : buf.length = slotsAt + rest.length := by
    rw [hbuf, List.length_append]
    rfl
  have hat : At buf 0 ([req 0, req 1] ++ Mem.be16 (slotsAt + rest.length) ++
      [req 4, req 5, req 6, req 7] ++ Mem.be16 code ++ [space] ++ [count]) := by
    rw [hbuf]
    exact At.of_prefix (List.prefix_append _ _)
  obtain ⟨hat, hcount⟩ := At.append_iff.1 hat
  obtain ⟨hat, hspace⟩ := At.append_iff.1 hat
  obtain ⟨hat, hcode'⟩ := At.append_iff.1 hat
  obtain ⟨hat, -⟩ := At.append_iff.1 hat
  obtain ⟨-, hlen'⟩ := At.append_iff.1 hat
  refine ⟨htotal, ?_, ?_, ?_, ?_⟩
  · rw [htotal]
    exact (rd16_at hlen').trans (Nat.mod_eq_of_lt hlen)
  · exact (rd16_at hcode').trans (Nat.mod_eq_of_lt hcode)
  · exact hspace.getD (k := 0) Nat.zero_lt_one 0
  · exact hcount.getD (k := 0) Nat.zero_lt_one 0

/-- A loop that stops at index `start + t` has read the first page of what there is from `start`
on; it says `MORE` when there is more. -/
theorem taken_eq {start t : Nat} {ys : List ArcItem} (hstart : 1 ≤ start)
    (ht : t ≤ limit + 1 - start) (hys : ys = (List.range' start t).filterMap want)
    (hfits : ys.length ≤ room) (hstop : t < limit + 1 - start → ys.length = room)
    (hdense : limit ≤ room ∨ ∀ idx, want idx ≠ none) {all : List ArcItem}
    (hall : all = (List.range' start (limit + 1 - start)).filterMap want) :
    (start + t ≤ limit ↔ room < all.length) ∧ all.take room = ys := by
  obtain ⟨r, hr⟩ := Nat.exists_eq_add_of_le ht
  have hsplit : all = ys ++ (List.range' (start + t) r).filterMap want := by
    rw [hall, hr, ← List.range'_append_1, List.filterMap_append, hys]
  rcases Nat.eq_zero_or_pos r with rfl | hpos
  · -- the list has ended
    have hsame : all = ys := by rw [hsplit, List.range'_zero, List.filterMap_nil, List.append_nil]
    refine ⟨⟨fun hlt => by omega, fun hlt => ?_⟩, ?_⟩
    · rw [hsame] at hlt
      exact absurd hfits (Nat.not_le_of_lt hlt)
    · rw [hsame, List.take_of_length_le hfits]
  · have hfull := hstop (by omega)
    have hsome : ∀ idx, want idx ≠ none := by
      refine hdense.resolve_left fun hle => ?_
      have hcount := List.length_filterMap_le want (List.range' start t)
      rw [← hys, List.length_range', hfull] at hcount
      omega
    obtain ⟨x, hx⟩ := Option.ne_none_iff_exists'.1 (hsome (start + t))
    obtain ⟨r, rfl⟩ := Nat.exists_eq_succ_of_ne_zero (Nat.ne_of_gt hpos)
    rw [List.range'_succ, List.filterMap_cons, hx] at hsplit
    refine ⟨⟨fun _ => ?_, fun _ => by omega⟩, ?_⟩
    · rw [hsplit, List.length_append, List.length_cons]
      omega
    · rw [hsplit, ← hfull, List.take_left]

/-- A page of a list is read back, item by item, and its result code says whether the list ended. -/
theorem readPage_arcPage (h : Lists item read size room limit Inv want) {c : σ} (hinv : Inv 0 c [])
    (hroom : room ≤ 255) (req : Mem) {start : Nat} (hstart : 1 ≤ start)
    (hdense : limit ≤ room ∨ ∀ idx, want idx ≠ none) {all : List ArcItem}
    (hall : all = (List.range' start (limit + 1 - start)).filterMap want) {reply : ArcMsg}
    (hreply : reply = (arcPage item c size room limit start (arcMsgBegin req)).1.finish
      (arcPage item c size room limit start (arcMsgBegin req)).2) :
    readPage read size reply.buf =
        some ⟨if room < all.length then danteCodeMore else danteCodeOk, all.take room⟩ ∧
      reply.len < packetSizeSoftLimit := by
  have hbegin : pageBegin (arcMsgBegin req) size room =
      (⟨danteHeader req ++ [UInt8.ofNat room, 0] ++ List.replicate (size * room) 0⟩,
        ⟨slotsAt, size, room, 0⟩) := by
    simp only [pageBegin, if_neg (Nat.not_lt.2 hroom)]
    rfl
  have hempty : Filled (danteHeader req ++ [UInt8.ofNat room, 0]) read size room
      ⟨danteHeader req ++ [UInt8.ofNat room, 0] ++ List.replicate (size * room) 0⟩
      ⟨slotsAt, size, room, 0⟩ [] [] :=
    ⟨⟨[], Laid.empty _ (List.length_replicate ..), .nil⟩, rfl, rfl⟩
  obtain ⟨t, ys, m', tail', ht, hys, hloop, hfill, hshort, hfits, hstop⟩ :=
    pageLoop_lists h (limit + 1 - start) hempty hinv hstart (by omega) (Nat.zero_le _)
  rw [List.nil_append] at hloop hfill hfits hstop
  obtain ⟨hmore, htake⟩ := taken_eq hstart ht hys hfits hstop hdense hall
  obtain ⟨slots, hlaid, hxs⟩ := hfill.laid
  obtain ⟨rest, hrest⟩ := hlaid.prefix_front
  have hlen := hfill.len
  have hsame : m' = ⟨danteHeader req ++ [UInt8.ofNat room, 0] ++ rest⟩ := by
    rw [hrest]
  have hpage : reply = (pageEnd m' ⟨slotsAt, size, room, ys.length⟩).finish
      (if start + t ≤ limit then danteCodeMore else danteCodeOk) := by
    rw [hreply]
    simp only [arcPage, hbegin, hloop]
  rw [hsame] at hlen hlaid hpage
  have hsize : slotsAt + rest.length = tailAt size room + tail'.length := by
    rw [← hlen, ArcMsg.len, List.length_append]
    rfl
  have hsoft : packetSizeSoftLimit = 800 := rfl
  have htail : tailAt size room = slotsAt + size * room := rfl
  have hbuf := buf_finish req (UInt8.ofNat room) (UInt8.ofNat ys.length) rest
    (if start + t ≤ limit then danteCodeMore else danteCodeOk)
  have hcode : (if start + t ≤ limit then danteCodeMore else danteCodeOk) < 65536 := by
    split <;> decide
  have hreplied : reply.buf = _ := (congrArg ArcMsg.buf hpage).trans hbuf
  obtain ⟨htotal, hlength, hcode', hspace, hcount⟩ := read_finish (by omega) hcode hreplied
  have hkeeps : Keeps (danteHeader req ++ [UInt8.ofNat room, 0]).length
      (danteHeader req ++ [UInt8.ofNat room, 0] ++ rest) reply.buf := by
    rw [hreplied]
    refine Keeps.of_append_right ?_ rest
    rfl
  have hslots := hlaid.readSlots_eq hxs hkeeps
  rw [hfill.front] at hslots
  have hroom' : (UInt8.ofNat room).toNat = room := by
    rw [UInt8.toNat_ofNat']
    omega
  have hcount' : (UInt8.ofNat ys.length).toNat = ys.length := by
    rw [UInt8.toNat_ofNat']
    omega
  refine ⟨?_, ?_⟩
  · rw [readPage, hlength, hspace, hcount, hroom', hcount', if_neg (by omega), hslots, hcode', htake]
    simp only [hmore]
    rfl
  · rw [ArcMsg.len, htotal]
    omega

end Page

end Firmware
end InfernoFpga
