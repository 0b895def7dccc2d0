import Masterlist.Document.Reading
import Masterlist.Proofs.Document.Characters
import Masterlist.Proofs.Text.Utf8
/-
  The document reads back

  A document is chunks within chunks: the parts of the document, the blocks of an
  entry, the items of a block. What makes it readable is that at each depth only
  the first line of a chunk opens one (`Chunk.Closed`), because every line inside
  stands further to the right. Then a list of chunks is cut where it was joined
  (`Chunk.all?_lines`), and each chunk is read on its own. Where no text holds a
  line feed, the lines of the document are those that were written, and so its
  items are those that the steps gave (`Item.ofBytes?_document`).
-/

namespace Masterlist

/-! ## Chunks -/

namespace Chunk

/-- The lines of a chunk. -/
def lines (chunk : Chunk) : List Text := chunk.opening :: chunk.inside

/-- The chunk opens with its first line and with no other. -/
def Closed (opens : Text → Bool) (chunk : Chunk) : Prop :=
  opens chunk.opening = true ∧ ∀ line ∈ chunk.inside, opens line = false

theorem split_inside {opens : Text → Bool} (rest : List Text) : ∀ {inside : List Text},
    (∀ line ∈ inside, opens line = false) →
    split opens (inside ++ rest) = (inside ++ (split opens rest).1, (split opens rest).2)
  | [], _ => rfl
  | line :: inside, h => by
    have ih := split_inside rest (fun l hl => h l (List.mem_cons_of_mem line hl))
    have hline : ¬ opens line = true := by simp [h line (List.mem_cons_self ..)]
    simp only [List.cons_append, split, ih, if_neg hline]

theorem split_lines {opens : Text → Bool} : ∀ {chunks : List Chunk},
    (∀ chunk ∈ chunks, chunk.Closed opens) → split opens (chunks.flatMap lines) = ([], chunks)
  | [], _ => rfl
  | chunk :: chunks, h => by
    obtain ⟨hopen, hinside⟩ := h chunk (List.mem_cons_self ..)
    have ih := split_lines (fun c hc => h c (List.mem_cons_of_mem chunk hc))
    rw [List.flatMap_cons, lines, List.cons_append, split, split_inside _ hinside, ih,
      List.append_nil, if_pos hopen]

/-- Chunks are cut where they were joined. -/
theorem all?_lines {opens : Text → Bool} {chunks : List Chunk}
    (h : ∀ chunk ∈ chunks, chunk.Closed opens) :
    all? opens (chunks.flatMap lines) = some chunks := by
  rw [all?, split_lines h]

theorem mapM_some {α β : Type} (chunk : α → Chunk) (read : Chunk → Option β) (value : α → β) :
    ∀ items : List α, (∀ a ∈ items, read (chunk a) = some (value a)) →
    (items.map chunk).mapM read = some (items.map value)
  | [], _ => rfl
  | a :: items, h => by
    have ih := mapM_some chunk read value items (fun b hb => h b (List.mem_cons_of_mem a hb))
    rw [List.map_cons, List.mapM_cons, h a (List.mem_cons_self ..), ih]
    rfl

/-- Items written as chunks one after another are read one after another. -/
theorem read_items {α β : Type} {opens : Text → Bool} (chunk : α → Chunk) (read : Chunk → Option β)
    (value : α → β) (items : List α) (hclosed : ∀ a, (chunk a).Closed opens)
    (hread : ∀ a, read (chunk a) = some (value a)) :
    (all? opens (items.flatMap (fun a => (chunk a).lines))).bind (List.mapM read) =
      some (items.map value) := by
  have hlines : items.flatMap (fun a => (chunk a).lines) = (items.map chunk).flatMap lines := by
    rw [List.flatMap_map]
  have hall : ∀ c ∈ items.map chunk, c.Closed opens := by
    intro c hc
    obtain ⟨a, -, rfl⟩ := List.mem_map.1 hc
    exact hclosed a
  rw [hlines, all?_lines hall, Option.bind_some,
    mapM_some chunk read value items (fun a _ => hread a)]

end Chunk

/-! ## Beginnings of lines -/

/-- Whether a text begins with a lead is settled by as many characters as the
lead has. -/
theorem Text.startsWith_append {lead a : Text} (h : lead.length ≤ a.length) (rest : Text) :
    Text.startsWith lead (a ++ rest) = Text.startsWith lead a := by
  induction lead generalizing a with
  | nil => cases a <;> rfl
  | cons l lead ih =>
    cases a with
    | nil => simp at h
    | cons c a =>
      have ih := ih (Nat.le_of_succ_le_succ h)
      unfold Text.startsWith at ih ⊢
      simp only [List.cons_append, Text.dropLeading?]
      split
      · exact ih
      · rfl

/-- The line has at least that many blanks in front. -/
def Indented (n : Nat) (line : Text) : Prop := ∃ rest, line = List.replicate n ' ' ++ rest

theorem indented_of_startsWith {n : Nat} {lit : Text}
    (h : Text.startsWith (List.replicate n ' ') lit = true) (rest : Text) :
    Indented n (lit ++ rest) := by
  obtain ⟨after, ha⟩ := Option.isSome_iff_exists.1 h
  exact ⟨after ++ rest, by rw [← List.append_assoc, Text.append_of_dropLeading? ha]⟩

theorem Indented.le {m n : Nat} {line : Text} (h : Indented n line) (hmn : m ≤ n) :
    Indented m line := by
  obtain ⟨rest, rfl⟩ := h
  refine ⟨List.replicate (n - m) ' ' ++ rest, ?_⟩
  rw [← List.append_assoc, List.replicate_append_replicate, Nat.add_sub_cancel' hmn]

theorem opensInner_of_indented {line : Text} (h : Indented 8 line) :
    Item.opensInner line = false := by
  obtain ⟨rest, rfl⟩ := h
  exact Text.startsWith_append (by decide) rest

theorem opensBlock_of_indented {line : Text} (h : Indented 6 line) :
    Item.opensBlock line = false := by
  obtain ⟨rest, rfl⟩ := h
  rfl

theorem opensOuter_of_indented {line : Text} (h : Indented 4 line) :
    Item.opensOuter line = false := by
  obtain ⟨rest, rfl⟩ := h
  rfl

/-- The scalar behind a lead reads back. -/
theorem scalarAfter?_write (lead text : Text) :
    scalarAfter? lead (lead ++ Scalar.write text) = some text := by
  rw [scalarAfter?, Text.dropLeading?_append, Option.bind_some, Scalar.read?_write]

/-! ## Tags -/

namespace EntryTag

/-- The tag as a chunk of its block. -/
def chunk (entryTag : EntryTag) : Chunk :=
  let name := Scalar.writeTag entryTag.tag.name entryTag.tag.removed
  match entryTag.condition with
  | none => ⟨"      - ".toList ++ name, []⟩
  | some condition =>
    ⟨"      - condition: ".toList ++ Scalar.write condition, ["        name: ".toList ++ name]⟩

theorem lines_eq_chunk (entryTag : EntryTag) : entryTag.lines = entryTag.chunk.lines := by
  unfold EntryTag.lines chunk
  cases entryTag.condition <;> rfl

theorem chunk_closed (entryTag : EntryTag) : entryTag.chunk.Closed Item.opensInner := by
  unfold chunk
  cases entryTag.condition with
  | none => exact ⟨Text.startsWith_append (by decide) _, by simp⟩
  | some condition =>
    refine ⟨Text.startsWith_append (by decide) _, ?_⟩
    intro line hl
    rw [List.mem_singleton.1 hl]
    exact opensInner_of_indented (indented_of_startsWith (by decide) _)

theorem ofChunk?_chunk (entryTag : EntryTag) :
    WrittenTag.ofChunk? entryTag.chunk = some entryTag.written := by
  have hname : ∀ lead : Text,
      scalarAfter? lead (lead ++ Scalar.writeTag entryTag.tag.name entryTag.tag.removed) =
        some entryTag.written.name := by
    intro lead
    rw [scalarAfter?, Text.dropLeading?_append, Option.bind_some, Scalar.read?_writeTag]
    rfl
  unfold chunk
  cases hc : entryTag.condition with
  | none =>
    simp only [WrittenTag.ofChunk?, hname, Option.map_some]
    rw [EntryTag.written, hc]
  | some condition =>
    simp only [WrittenTag.ofChunk?, hname, scalarAfter?_write]
    rw [EntryTag.written, hc]

theorem indented_of_mem_lines {entryTag : EntryTag} {line : Text} (h : line ∈ entryTag.lines) :
    Indented 6 line := by
  unfold EntryTag.lines at h
  split at h
  · rw [List.mem_singleton.1 h]
    exact indented_of_startsWith (by decide) _
  · rcases List.mem_cons.1 h with rfl | h
    · exact indented_of_startsWith (by decide) _
    · rw [List.mem_singleton.1 h]
      exact indented_of_startsWith (by decide) _

end EntryTag

/-- The tags of a block read back. -/
theorem Item.tags?_lines (tags : List EntryTag) :
    Item.tags? (tags.flatMap EntryTag.lines) = some (tags.map EntryTag.written) := by
  rw [Item.tags?, funext EntryTag.lines_eq_chunk]
  exact Chunk.read_items EntryTag.chunk _ _ tags EntryTag.chunk_closed EntryTag.ofChunk?_chunk

/-! ## Messages -/

namespace Message

/-- The message as a chunk at a margin. -/
def chunk (margin : Text) (message : Message) : Chunk :=
  { opening := margin ++ "- type: ".toList ++ message.severity.name
    inside :=
      (match message.condition with
        | none => []
        | some condition => [margin ++ "  condition: ".toList ++ Scalar.write condition]) ++
        [margin ++ "  content: ".toList ++ Scalar.write message.content] }

theorem lines_eq_chunk (margin : Text) (message : Message) :
    message.lines margin = (message.chunk margin).lines := rfl

/-- The lines inside a message stand two blanks to the right of its margin. -/
theorem mem_inside {margin : Text} {message : Message} {line : Text}
    (h : line ∈ (message.chunk margin).inside) : ∃ rest, line = margin ++ ' ' :: ' ' :: rest := by
  unfold chunk at h
  rcases List.mem_append.1 h with h | h
  · cases hc : message.condition with
    | none => simp [hc] at h
    | some condition =>
      simp only [hc, List.mem_singleton] at h
      exact ⟨"condition: ".toList ++ Scalar.write condition, by rw [h, List.append_assoc]; rfl⟩
  · rw [List.mem_singleton.1 h]
    exact ⟨"content: ".toList ++ Scalar.write message.content, by rw [List.append_assoc]; rfl⟩

theorem chunk_closed_inner (message : Message) :
    (message.chunk innerMargin).Closed Item.opensInner := by
  refine ⟨?_, ?_⟩
  · exact Text.startsWith_append (by decide) _
  · intro line hl
    obtain ⟨rest, rfl⟩ := mem_inside hl
    exact opensInner_of_indented ⟨rest, rfl⟩

theorem chunk_closed_outer (message : Message) :
    (message.chunk outerMargin).Closed Item.opensOuter := by
  refine ⟨rfl, ?_⟩
  intro line hl
  obtain ⟨rest, rfl⟩ := mem_inside hl
  exact opensOuter_of_indented ⟨rest, rfl⟩

theorem ofChunk?_chunk (margin : Text) (message : Message) :
    WrittenMessage.ofChunk? margin (message.chunk margin) = some message.written := by
  unfold chunk WrittenMessage.ofChunk?
  cases hc : message.condition with
  | none =>
    simp only [Text.dropLeading?_append, List.nil_append, scalarAfter?_write, Option.map_some]
    rw [Message.written, hc]
  | some condition =>
    simp only [Text.dropLeading?_append, List.cons_append, List.nil_append, scalarAfter?_write]
    rw [Message.written, hc]

/-- The lines of a message stand at least at its margin. -/
theorem indented_of_mem_lines {n : Nat} {message : Message} {line : Text}
    (h : line ∈ message.lines (List.replicate n ' ')) : Indented n line := by
  rcases List.mem_cons.1 h with rfl | h
  · exact ⟨"- type: ".toList ++ message.severity.name, by rw [List.append_assoc]⟩
  · obtain ⟨rest, rfl⟩ := mem_inside h
    exact ⟨' ' :: ' ' :: rest, rfl⟩

end Message

/-- The messages of a block read back. -/
theorem Item.messages?_lines (messages : List Message) :
    Item.messages? (messages.flatMap (Message.lines innerMargin)) =
      some (messages.map Message.written) :=
  Chunk.read_items (Message.chunk innerMargin) _ _ messages Message.chunk_closed_inner
    (Message.ofChunk?_chunk innerMargin)

/-! ## Entries -/

namespace Entry

/-- The block of the tags, if there are any. -/
def tagBlock (entry : Entry) : List Chunk :=
  if entry.tags = [] then [] else [⟨"    tag:".toList, entry.tags.flatMap EntryTag.lines⟩]

/-- The block of the messages, if there are any. -/
def messageBlock (entry : Entry) : List Chunk :=
  if entry.messages = [] then []
  else [⟨"    msg:".toList, entry.messages.flatMap (Message.lines innerMargin)⟩]

/-- The entry as a chunk of the document, without what follows it. -/
def chunk (entry : Entry) : Chunk :=
  { opening := "  - name: ".toList ++ Scalar.write entry.name
    inside := (entry.tagBlock ++ entry.messageBlock).flatMap Chunk.lines }

theorem lines_eq_chunk (entry : Entry) :
    entry.lines = entry.chunk.lines ++ entry.asides.flatMap Aside.lines := by
  have htags : entry.tagBlock.flatMap Chunk.lines =
      (if entry.tags = [] then [] else "    tag:".toList :: entry.tags.flatMap EntryTag.lines) := by
    unfold tagBlock
    split <;> simp [Chunk.lines]
  have hmessages : entry.messageBlock.flatMap Chunk.lines =
      (if entry.messages = [] then []
        else "    msg:".toList :: entry.messages.flatMap (Message.lines innerMargin)) := by
    unfold messageBlock
    split <;> simp [Chunk.lines]
  have hinside : entry.chunk.inside =
      entry.tagBlock.flatMap Chunk.lines ++ entry.messageBlock.flatMap Chunk.lines :=
    List.flatMap_append
  rw [Entry.lines_eq, Chunk.lines, hinside, htags, hmessages, ← List.cons_append]
  rfl

/-- A block opens as one, and its items stand two blanks to the right of it. -/
theorem block_indented {entry : Entry} {block : Chunk}
    (hb : block ∈ entry.tagBlock ++ entry.messageBlock) :
    Item.opensBlock block.opening = true ∧ Indented 4 block.opening ∧
      ∀ line ∈ block.inside, Indented 6 line := by
  rcases List.mem_append.1 hb with hb | hb
  · unfold tagBlock at hb
    split at hb
    · simp at hb
    · rw [List.mem_singleton.1 hb]
      refine ⟨rfl, ⟨"tag:".toList, rfl⟩, fun line hl => ?_⟩
      obtain ⟨entryTag, -, hl⟩ := List.mem_flatMap.1 hl
      exact EntryTag.indented_of_mem_lines hl
  · unfold messageBlock at hb
    split at hb
    · simp at hb
    · rw [List.mem_singleton.1 hb]
      refine ⟨rfl, ⟨"msg:".toList, rfl⟩, fun line hl => ?_⟩
      obtain ⟨message, -, hl⟩ := List.mem_flatMap.1 hl
      exact Message.indented_of_mem_lines hl

theorem blocks_closed (entry : Entry) :
    ∀ block ∈ entry.tagBlock ++ entry.messageBlock, block.Closed Item.opensBlock := by
  intro block hb
  obtain ⟨hopens, -, hinside⟩ := block_indented hb
  exact ⟨hopens, fun line hl => opensBlock_of_indented (hinside line hl)⟩

/-- Everything inside an entry is indented. -/
theorem indented_of_mem_inside {entry : Entry} {line : Text} (h : line ∈ entry.chunk.inside) :
    Indented 4 line := by
  obtain ⟨block, hb, hl⟩ := List.mem_flatMap.1 h
  obtain ⟨-, hopening, hinside⟩ := block_indented hb
  rcases List.mem_cons.1 hl with rfl | hl
  · exact hopening
  · exact (hinside line hl).le (by decide)

theorem chunk_closed (entry : Entry) : entry.chunk.Closed Item.opensOuter :=
  ⟨rfl, fun _ hl => opensOuter_of_indented (indented_of_mem_inside hl)⟩

/-- The item that the entry is, without what follows it. -/
def item (entry : Entry) : Item :=
  .entry entry.name (entry.tags.map EntryTag.written) (entry.messages.map Message.written)

theorem ofBlocks?_tags (name : Text) (lines : List Text) :
    Item.ofBlocks? name [⟨"    tag:".toList, lines⟩] =
      (Item.tags? lines).map (fun tags => .entry name tags []) := rfl

theorem ofBlocks?_messages (name : Text) (lines : List Text) :
    Item.ofBlocks? name [⟨"    msg:".toList, lines⟩] =
      (Item.messages? lines).map (fun messages => .entry name [] messages) := rfl

theorem ofBlocks?_both (name : Text) (tagLines messageLines : List Text) :
    Item.ofBlocks? name [⟨"    tag:".toList, tagLines⟩, ⟨"    msg:".toList, messageLines⟩] =
      match Item.tags? tagLines, Item.messages? messageLines with
      | some tags, some messages => some (.entry name tags messages)
      | _, _ => none := rfl

/-- The blocks of an entry are read for what they are, whichever are there. -/
theorem ofBlocks?_blocks (entry : Entry) :
    Item.ofBlocks? entry.name (entry.tagBlock ++ entry.messageBlock) = some entry.item := by
  unfold tagBlock messageBlock item
  -- a block is there just when it has items, so there are four ways
  by_cases ht : entry.tags = [] <;> by_cases hm : entry.messages = []
  · rw [if_pos ht, if_pos hm, ht, hm]
    rfl
  · rw [if_pos ht, if_neg hm, ht, List.nil_append, ofBlocks?_messages, Item.messages?_lines]
    rfl
  · rw [if_neg ht, if_pos hm, hm, List.append_nil, ofBlocks?_tags, Item.tags?_lines]
    rfl
  · rw [if_neg ht, if_neg hm, List.singleton_append, ofBlocks?_both, Item.tags?_lines,
      Item.messages?_lines]

theorem ofChunk?_chunk (entry : Entry) : Item.ofChunk? entry.chunk = some entry.item := by
  have hhash : Text.dropLeading? ['#'] entry.chunk.opening = none := rfl
  have hname : scalarAfter? "  - name: ".toList entry.chunk.opening = some entry.name :=
    scalarAfter?_write _ _
  have hblocks : Chunk.all? Item.opensBlock entry.chunk.inside =
      some (entry.tagBlock ++ entry.messageBlock) := Chunk.all?_lines entry.blocks_closed
  simp only [Item.ofChunk?, hhash, hname, hblocks, Option.bind_some]
  exact ofBlocks?_blocks entry

end Entry

/-! ## The parts of a document -/

/-- A part of the document: an entry by itself, or what stands between entries. -/
inductive Part where
  | aside (aside : Aside)
  | entry (entry : Entry)

namespace Part

def chunk : Part → Chunk
  | .aside (.comment text) => ⟨'#' :: text, []⟩
  | .aside (.message item) => item.chunk outerMargin
  | .entry whole => whole.chunk

def item : Part → Item
  | .aside between => between.item
  | .entry whole => whole.item

theorem chunk_closed : ∀ part : Part, part.chunk.Closed Item.opensOuter
  | .aside (.comment _) => ⟨rfl, by simp [chunk]⟩
  | .aside (.message item) => item.chunk_closed_outer
  | .entry whole => whole.chunk_closed

theorem ofChunk?_chunk : ∀ part : Part, Item.ofChunk? part.chunk = some part.item
  | .aside (.comment _) => rfl
  | .aside (.message message) => by
    have hhash : Text.dropLeading? ['#'] (message.chunk outerMargin).opening = none := rfl
    have hname : scalarAfter? "  - name: ".toList (message.chunk outerMargin).opening = none := rfl
    simp only [chunk, Item.ofChunk?, hhash, hname, Message.ofChunk?_chunk, Option.map_some]
    rfl
  | .entry whole => whole.ofChunk?_chunk

end Part

theorem Aside.lines_eq_chunk (aside : Aside) : aside.lines = (Part.aside aside).chunk.lines := by
  cases aside <;> rfl

namespace Batch

/-- The parts of a batch, in the order of the document. -/
def parts (batch : Batch) : List Part :=
  batch.asides.map Part.aside ++
    batch.entries.flatMap (fun entry => .entry entry :: entry.asides.map Part.aside)

/-- The items that a reader of the document is to find. -/
def items (batch : Batch) : List Item :=
  batch.asides.map Aside.item ++ batch.entries.flatMap Entry.items

theorem lines_eq_parts (batch : Batch) :
    batch.lines = documentStart :: batch.parts.flatMap (fun part => part.chunk.lines) := by
  have hasides : ∀ asides : List Aside, asides.flatMap Aside.lines =
      (asides.map Part.aside).flatMap (fun part => part.chunk.lines) := by
    intro asides
    rw [List.flatMap_map, funext Aside.lines_eq_chunk]
  have hentry : ∀ entry : Entry, entry.lines =
      (.entry entry :: entry.asides.map Part.aside).flatMap (fun part => part.chunk.lines) := by
    intro entry
    rw [List.flatMap_cons, ← hasides]
    exact entry.lines_eq_chunk
  rw [Batch.lines, parts, List.flatMap_append, List.flatMap_assoc, hasides, funext hentry]
  rfl

theorem map_item_parts (batch : Batch) : batch.parts.map Part.item = batch.items := by
  simp only [parts, items, List.map_append, List.map_map, List.map_flatMap, List.map_cons]
  rfl

/-- The lines of a batch read as its items. -/
theorem ofLines?_lines (batch : Batch) : Item.ofLines? batch.lines = some batch.items := by
  rw [lines_eq_parts, Item.ofLines?, if_pos rfl, ← map_item_parts]
  exact Chunk.read_items Part.chunk _ _ batch.parts Part.chunk_closed Part.ofChunk?_chunk

end Batch

/-! ## The text of a document -/

/-- Lines without line feeds are found again in their text. -/
theorem exists_splitAt_unlines : ∀ (line : Text) (lines : List Text),
    (∀ l ∈ line :: lines, '\n' ∉ l) →
    ∃ body, unlines (line :: lines) = body ++ ['\n'] ∧ Text.splitAt '\n' body = line :: lines
  | line, [], h => ⟨line, by simp [unlines], Text.splitAt_self (h line (List.mem_cons_self ..))⟩
  | line, next :: rest, h => by
    obtain ⟨body, hbody, hsplit⟩ :=
      exists_splitAt_unlines next rest (fun l hl => h l (List.mem_cons_of_mem line hl))
    refine ⟨line ++ '\n' :: body, ?_, ?_⟩
    · have hcons : unlines (line :: next :: rest) = line ++ ['\n'] ++ unlines (next :: rest) := rfl
      rw [hcons, hbody]
      simp
    · rw [Text.splitAt_append (h line (List.mem_cons_self ..)), hsplit]

/-- A batch without line feeds in its texts reads back from the bytes of its lines. -/
theorem Batch.ofBytes?_lines {batch : Batch} (h : ∀ text ∈ batch.texts, '\n' ∉ text) :
    Item.ofBytes? (linesBytes batch.lines) = some batch.items := by
  have hlines : ∀ line ∈ batch.lines, '\n' ∉ line := Batch.not_mem_lines (by decide) h
  obtain ⟨body, hbody, hsplit⟩ := exists_splitAt_unlines _ _ hlines
  rw [Item.ofBytes?, linesBytes, Utf8.repair_encode, Item.ofText?]
  rw [show unlines batch.lines = body ++ ['\n'] from hbody, Text.dropLast?_append, Option.bind_some,
    hsplit]
  exact batch.ofLines?_lines

/-- **The document is read without loss.** From the bytes of any steps whose texts
hold no line feed one reader recovers the items that the steps give; so steps
that give other items have other bytes. -/
theorem Item.ofBytes?_document {inner : List Step} (hi : ∀ s ∈ inner, s.isInner = true)
    (hf : ∀ s ∈ inner, ∀ text ∈ s.texts, '\n' ∉ text) :
    Item.ofBytes? (Writer.steps false (Writer.fresh none) (Step.document inner)).1 =
        some (Batch.ofSteps false inner).items ∧
      ∀ other : List Step, (∀ s ∈ other, s.isInner = true) →
        (∀ s ∈ other, ∀ text ∈ s.texts, '\n' ∉ text) →
        (Batch.ofSteps false other).items ≠ (Batch.ofSteps false inner).items →
        (Writer.steps false (Writer.fresh none) (Step.document other)).1 ≠
          (Writer.steps false (Writer.fresh none) (Step.document inner)).1 := by
  have hread : ∀ steps : List Step, (∀ s ∈ steps, s.isInner = true) →
      (∀ s ∈ steps, ∀ text ∈ s.texts, '\n' ∉ text) →
      Item.ofBytes? (Writer.steps false (Writer.fresh none) (Step.document steps)).1 =
        some (Batch.ofSteps false steps).items := by
    intro steps hinner hfeed
    have htexts : ∀ text ∈ (Batch.ofSteps false steps).texts, '\n' ∉ text := by
      intro text ht
      obtain ⟨s, hs, hst⟩ := Batch.exists_step_of_mem_texts ht
      exact hfeed s hs text hst
    rw [Writer.fresh, Writer.steps_unlimited, Stream.steps_document false hinner]
    exact Batch.ofBytes?_lines htexts
  refine ⟨hread inner hi hf, ?_⟩
  intro other hoi hof hne heq
  have hsame := hread other hoi hof
  rw [heq, hread inner hi hf] at hsame
  exact hne (Option.some.inj hsame).symm

/-- Names that look like structure: a tag called `type: say`, one that is removed
and begins with a quote, an empty name, and a comment that looks like an entry. -/
theorem Item.ofBytes?_document_lookalikes :
    (∀ s ∈ [Step.comment "  - name: x".toList, .begin [], .tag ⟨⟨"type: say".toList, false⟩, none⟩,
        .tag ⟨⟨"'quoted".toList, true⟩, some "condition: x".toList⟩,
        .message ⟨.warn, none, "    tag:".toList⟩, .globalMessage ⟨.say, some "~".toList, []⟩],
        s.isInner = true ∧ ∀ text ∈ s.texts, '\n' ∉ text) ∧
      Item.ofBytes? (Writer.steps false (Writer.fresh none) (Step.document
        [.comment "  - name: x".toList, .begin [], .tag ⟨⟨"type: say".toList, false⟩, none⟩,
          .tag ⟨⟨"'quoted".toList, true⟩, some "condition: x".toList⟩,
          .message ⟨.warn, none, "    tag:".toList⟩,
          .globalMessage ⟨.say, some "~".toList, []⟩])).1 =
        some [.comment "  - name: x".toList,
          .entry [] [⟨"type: say".toList, none⟩, ⟨"-'quoted".toList, some "condition: x".toList⟩]
            [⟨"warn".toList, none, "    tag:".toList⟩],
          .message ⟨"say".toList, some "~".toList, []⟩] := by
  refine ⟨by decide, ?_⟩
  rw [(Item.ofBytes?_document (by decide) (by decide)).1]
  rfl

end Masterlist
