import Mathlib.Data.List.Forall2
import Masterlist.Proofs.Json.Reading
import Masterlist.Report.Library
/-
  The form of a report — what is written is read back

  A report is read by the names of its members, so their order and what else stands among
  them make no difference (`Json.values?_of_rearranges`). The text of a report is one that
  writes its members (`Report.writes_json`), and every such text is read back to the report
  itself. That holds of every library that does what is assumed of it
  (`Report.Library.read_rewritten`), and of the reader and writer here in particular, which
  are one (`Report.Library.standard_lawful`, `Report.ofText?_rewritten`). Two reports of one
  text are therefore one.
-/

namespace Masterlist

namespace Json

/-! ## Members by name -/

theorem filter_membersOf {names : List Text} {values : List Json} (hd : names.Nodup)
    {name : Text} {value : Json} (h : (name, value) ∈ names.zip values) :
    (membersOf names values).filter (fun member => member.1 == some name) =
      [(some name, value)] := by
  induction names generalizing values with
  | nil => cases h
  | cons first names ih =>
    obtain ⟨hfirst, hnames⟩ := List.nodup_cons.1 hd
    cases values with
    | nil => cases h
    | cons next values =>
      rw [List.zip_cons_cons, List.mem_cons] at h
      rcases h with heq | hmem
      · obtain ⟨rfl, rfl⟩ := Prod.mk.inj heq
        have hothers : (membersOf names values).filter (fun member => member.1 == some name) =
            [] := by
          rw [List.filter_eq_nil_iff]
          intro member hmember hname
          obtain ⟨other, hother, hsome⟩ := List.mem_map.1 (List.of_mem_zip hmember).1
          rw [beq_iff_eq, ← hsome, Option.some.injEq] at hname
          exact hfirst (hname ▸ hother)
        change List.filter _ ((some name, value) :: membersOf names values) = _
        rw [List.filter_cons_of_pos (by simp), hothers]
      · have hne : first ≠ name := fun he => hfirst (he ▸ (List.of_mem_zip hmem).1)
        change List.filter _ ((some first, next) :: membersOf names values) = _
        rw [List.filter_cons_of_neg (by simpa using hne), ih hnames hmem]

section
variable {names : List Text} {values : List Json} {members : List Member}

/-- A member is found by its name wherever it stands. -/
theorem member?_of_rearranges (hd : names.Nodup) (h : Rearranges names values members)
    {name : Text} {value : Json} (hmem : (name, value) ∈ names.zip values) :
    member? members name = some value := by
  obtain ⟨others, hperm, hunknown⟩ := h
  have hothers : others.filter (fun member => member.1 == some name) = [] := by
    rw [List.filter_eq_nil_iff]
    intro other hother hname
    obtain ⟨⟨unknown, hsome, hnot⟩, -⟩ := hunknown other hother
    rw [beq_iff_eq, hsome, Option.some.injEq] at hname
    exact hnot (hname ▸ (List.of_mem_zip hmem).1)
  have hfilter := hperm.filter (fun member => member.1 == some name)
  rw [List.filter_append, filter_membersOf hd hmem, hothers, List.append_nil,
    List.perm_singleton] at hfilter
  rw [member?, hfilter]

theorem isSome_of_rearranges (h : Rearranges names values members) :
    members.all (fun member => member.1.isSome) = true := by
  obtain ⟨others, hperm, hunknown⟩ := h
  rw [List.all_eq_true]
  intro member hmember
  rcases List.mem_append.1 (hperm.mem_iff.1 hmember) with hknown | hother
  · obtain ⟨name, -, hsome⟩ := List.mem_map.1 (List.of_mem_zip hknown).1
    rw [← hsome]
    rfl
  · obtain ⟨⟨name, hsome, -⟩, -⟩ := hunknown member hother
    rw [hsome]
    rfl

theorem mapM_of_zip {f : Text → Option Json} (hl : names.length = values.length)
    (h : ∀ {name value}, (name, value) ∈ names.zip values → f name = some value) :
    names.mapM f = some values := by
  induction names generalizing values with
  | nil =>
    rw [List.length_eq_zero_iff.1 hl.symm]
    rfl
  | cons name names ih =>
    cases values with
    | nil => cases hl
    | cons value values =>
      have hfirst : f name = some value := h (List.mem_cons_self ..)
      have hrest : names.mapM f = some values :=
        ih (Nat.succ.inj hl) (fun hmem => h (List.mem_cons_of_mem _ hmem))
      rw [List.mapM_cons, hfirst, hrest]
      rfl

/-- The values under some names are the same in every order of the members. -/
theorem values?_of_rearranges (hd : names.Nodup) (hl : names.length = values.length)
    (h : Rearranges names values members) : (Json.object members).values? names = some values := by
  rw [values?, if_pos (isSome_of_rearranges h)]
  exact mapM_of_zip hl (fun hmem => member?_of_rearranges hd h hmem)

end

/-- The members of some names and values stand in one of their orders. -/
theorem rearranges_membersOf (names : List Text) (values : List Json) :
    Rearranges names values (membersOf names values) := by
  refine ⟨[], ?_, ?_⟩
  · rw [List.append_nil]
  · intro other hother
    cases hother

theorem areUnknown_one {names : List Text} {name : Text} (natural : Option Nat)
    (h : name ∉ names) : AreUnknown names [(some name, .number natural)] := by
  intro other hother
  rw [List.mem_singleton.1 hother]
  exact ⟨⟨name, rfl, h⟩, natural, rfl⟩

theorem count?_ofNat {n : Nat} (h : n < MessageCounts.limit) : (ofNat n).count? = some n := by
  simp [ofNat, count?, natural?, h]

/-! ## Objects as they are written -/

/-- The name stands between quotes as it is. -/
def IsPlainKey (name : Text) : Prop := ∀ c ∈ name, c ≠ '"' ∧ c ≠ '\\' ∧ 0x20 ≤ c.toNat

instance (name : Text) : Decidable (IsPlainKey name) :=
  List.decidableBAll _ name

theorem spellsKey_self {name : Text} (h : IsPlainKey name) : SpellsKey name (some name) := by
  induction name with
  | nil => exact ⟨[], .nil, rfl⟩
  | cons c name ih =>
    obtain ⟨hquote, hslash, hrange⟩ := h c (List.mem_cons_self ..)
    obtain ⟨units, hspells, hunits⟩ := ih (fun d hd => h d (List.mem_cons_of_mem c hd))
    refine ⟨.plain c :: units, .plain hquote hslash hrange hspells, ?_⟩
    rw [textOfUnits?, hunits]
    rfl

/-- The line of a member, as it stands in an object at a margin. -/
def memberLine (margin : Text) (member : Text × Text) : Text :=
  '\n' :: margin ++ "  \"".toList ++ member.1 ++ "\": ".toList ++ member.2

section
variable {margin : Text} (hm : Spaces margin)
include hm

theorem writesMember_line {name text behind : Text} {value : Json} (hn : IsPlainKey name)
    (hv : Writes text value) (hb : Spaces behind) :
    WritesMember (memberLine margin (name, text) ++ behind) (some name, value) := by
  have htwo : Spaces [' ', ' '] := spaces_cons rfl (spaces_cons rfl spaces_nil)
  have hbefore : Spaces ('\n' :: (margin ++ [' ', ' '])) := spaces_cons rfl (spaces_append hm htwo)
  have hone : Spaces [' '] := spaces_cons rfl spaces_nil
  have hwrites := WritesMember.intro hbefore (spellsKey_self hn) spaces_nil hone hv hb
  simpa [memberLine] using hwrites

theorem writesMembers_lines {names texts : List Text} {values : List Json}
    (hn : ∀ name ∈ names, IsPlainKey name) (hne : names ≠ [])
    (hv : List.Forall₂ Writes texts values) (hl : names.length = texts.length) :
    WritesMembers (Text.join [','] ((names.zip texts).map (memberLine margin)) ++ '\n' :: margin)
      (membersOf names values) := by
  induction hv generalizing names with
  | nil => exact absurd (List.length_eq_zero_iff.1 hl) hne
  | cons hfirst hrest ih =>
    rename_i text value texts values
    have hend : Spaces ('\n' :: margin) := spaces_cons rfl hm
    cases names with
    | nil => cases hl
    | cons name names =>
      have hname := hn name (List.mem_cons_self ..)
      have hlength := Nat.succ.inj hl
      cases names with
      | nil =>
        rw [List.length_nil, eq_comm, List.length_eq_zero_iff] at hlength
        subst hlength
        cases hrest
        exact .one (writesMember_line hm hname hfirst hend)
      | cons next names =>
        have hmore := ih (fun other hother => hn other (List.mem_cons_of_mem name hother))
          (List.cons_ne_nil next names) hlength
        cases texts with
        | nil => cases hlength
        | cons after texts =>
          have hline := writesMember_line hm hname hfirst spaces_nil
          have hboth := WritesMembers.more hline hmore
          simpa [Text.join, membersOf] using hboth

/-- An object written with one member a line writes those members. -/
theorem writes_writeObject {names texts : List Text} {values : List Json}
    (hn : ∀ name ∈ names, IsPlainKey name) (hne : names ≠ [])
    (hv : List.Forall₂ Writes texts values) (hl : names.length = texts.length) :
    Writes (writeObject margin (names.zip texts)) (.object (membersOf names values)) := by
  have hmembers := writesMembers_lines hm hn hne hv hl
  exact Writes.object hmembers

end

end Json

namespace MessageCounts

theorem names_nodup : names.Nodup := by decide

theorem names_plain : ∀ name ∈ names, Json.IsPlainKey name := by decide

theorem writes_json (counts : MessageCounts) :
    Json.Writes counts.json (.object (Json.membersOf names counts.values)) := by
  have hspaces : Json.Spaces "  ".toList :=
    Json.spaces_cons rfl (Json.spaces_cons rfl Json.spaces_nil)
  have hvalues : List.Forall₂ Json.Writes _ counts.values :=
    .cons (.natural _) (.cons (.natural _) (.cons (.natural _) .nil))
  exact Json.writes_writeObject hspaces names_plain (by decide) hvalues rfl

end MessageCounts

namespace Report

theorem names_nodup : names.Nodup := by decide

theorem names_plain : ∀ name ∈ names, Json.IsPlainKey name := by decide

theorem writes_json (report : Report) : Json.Writes report.json report.value := by
  have hmessages := report.messages.writes_json
  refine Json.writes_writeObject Json.spaces_nil names_plain (by decide) ?_ rfl
  simp [values, hmessages, Json.ofNat, Json.Writes.natural]

/-- A text of the members of a report in their order is one of those that write it. -/
theorem isWrittenBy_of_writes {report : Report} {text : Text}
    (h : Json.WritesAlone text report.value) : report.IsWrittenBy text :=
  ⟨_, _, Json.rearranges_membersOf .., Json.rearranges_membersOf .., h⟩

namespace Library

/-- The definitions here make a library. -/
theorem standard_lawful : standard.Lawful where
  prints report := report.writes_json.alone
  parses := Json.ofText?_of_writes
  finds := Json.values?_of_rearranges
  counts := Json.count?_ofNat

section
variable {library : Library} (lawful : library.Lawful) {report : Report} (hf : report.Fits)
include lawful

theorem counts_of_rearranges {counts : MessageCounts} {members : List Json.Member}
    (hf : ∀ n ∈ counts.counters, n < MessageCounts.limit)
    (h : Json.Rearranges MessageCounts.names counts.values members) :
    MessageCounts.ofFields? library.fields library.count (.object members) = some counts := by
  have hvalues := lawful.finds MessageCounts.names_nodup rfl h
  simp only [MessageCounts.counters, List.forall_mem_cons] at hf
  obtain ⟨hsay, hwarn, herror, -⟩ := hf
  simp [MessageCounts.ofFields?, hvalues, MessageCounts.values, MessageCounts.counters,
    lawful.counts, hsay, hwarn, herror]

include hf

theorem report_of_rearranges {counts members : List Json.Member}
    (hc : Json.Rearranges MessageCounts.names report.messages.values counts)
    (h : Json.Rearranges names (report.values (.object counts)) members) :
    Report.ofFields? library.fields library.count (.object members) = some report := by
  have hvalues := lawful.finds names_nodup rfl h
  have hmessages : MessageCounts.ofFields? library.fields library.count (.object counts) =
      some report.messages := by
    refine counts_of_rearranges lawful (fun n hn => hf n ?_) hc
    simp [counters, hn]
  simp only [Fits, counters, MessageCounts.counters, List.cons_append, List.nil_append,
    List.forall_mem_cons] at hf
  simp [Report.ofFields?, hvalues, values, hmessages, lawful.counts, hf]

theorem read_of_isWrittenBy {text : Text} (h : report.IsWrittenBy text) :
    library.read text = some report := by
  obtain ⟨counts, members, hcounts, hmembers, hwrites⟩ := h
  rw [read, lawful.parses hwrites, Option.bind_some,
    report_of_rearranges lawful hf hcounts hmembers]

/-- **A report survives every lawful library.** Its text is read back to that report, and so
is every text with the members in another order, in the object and in the counts of messages,
and with members unknown to a report among them. No two reports have one text. -/
theorem read_rewritten :
    library.read (library.print report) = some report ∧
    (∀ text, report.IsWrittenBy text → library.read text = some report) ∧
    ∀ other : Report, other.Fits → library.print other = library.print report →
      other = report := by
  have hread : ∀ written : Report, written.Fits →
      library.read (library.print written) = some written := fun written hw =>
    read_of_isWrittenBy lawful hw (isWrittenBy_of_writes (lawful.prints written))
  refine ⟨hread report hf, fun text h => read_of_isWrittenBy lawful hf h, ?_⟩
  intro other hother hprint
  have hsame := hread other hother
  rw [hprint, hread report hf] at hsame
  exact (Option.some.inj hsame).symm

end

end Library

/-- **A report survives its text.** The text of a report is read back to that report, and so is
every text with the members in another order, in the object and in the counts of messages, and
with members unknown to a report among them. No two reports have one text. -/
theorem ofText?_rewritten {report : Report} (hf : report.Fits) :
    ofText? report.json = some report ∧ report.IsWrittenBy report.json ∧
    (∀ text, report.IsWrittenBy text → ofText? text = some report) ∧
    ∀ other : Report, other.Fits → other.json = report.json → other = report := by
  obtain ⟨hread, htexts, hone⟩ := Library.read_rewritten Library.standard_lawful hf
  exact ⟨hread, isWrittenBy_of_writes report.writes_json.alone, htexts, hone⟩

/-- A report with the greatest numbers there are, without and within the counts of messages. -/
def greatest : Report :=
  ⟨MessageCounts.limit - 1, 1, 2, 3, 4, 5, ⟨6, 7, MessageCounts.limit - 1⟩, 8, 9, 10, 11, 12⟩

/-- Its members backwards, in both objects behind one that a report knows nothing of. -/
def greatestTurned : Text :=
  Json.writeObject [] (("note".toList :: names.reverse).zip
    ['-' :: Text.ofNat 1, Text.ofNat 12, Text.ofNat 11, Text.ofNat 10, Text.ofNat 9, Text.ofNat 8,
      Json.writeObject [] (("note".toList :: MessageCounts.names.reverse).zip
        [Text.ofNat MessageCounts.limit, Text.ofNat (MessageCounts.limit - 1), Text.ofNat 7,
          Text.ofNat 6]),
      Text.ofNat 5, Text.ofNat 4, Text.ofNat 3, Text.ofNat 2, Text.ofNat 1,
      Text.ofNat (MessageCounts.limit - 1)])

theorem isWrittenBy_greatestTurned : greatest.IsWrittenBy greatestTurned := by
  have hplain : ∀ name ∈ "note".toList :: names.reverse, Json.IsPlainKey name := by decide
  have hplains : ∀ name ∈ "note".toList :: MessageCounts.names.reverse, Json.IsPlainKey name := by
    decide
  have hunknown := Json.areUnknown_one (some MessageCounts.limit)
    (by decide : "note".toList ∉ MessageCounts.names)
  have hunknowns := Json.areUnknown_one none (by decide : "note".toList ∉ names)
  have hcounts : List.Forall₂ Json.Writes _
      (.ofNat MessageCounts.limit :: greatest.messages.values.reverse) :=
    .cons (.natural _) (.cons (.natural _) (.cons (.natural _) (.cons (.natural _) .nil)))
  have hmessages := Json.writes_writeObject Json.spaces_nil hplains (by decide) hcounts rfl
  have hvalues : List.Forall₂ Json.Writes _ (.number none :: (greatest.values _).reverse) :=
    .cons (.negative 1) (.cons (.natural 12) (.cons (.natural 11) (.cons (.natural 10)
      (.cons (.natural 9) (.cons (.natural 8) (.cons hmessages (.cons (.natural 5)
        (.cons (.natural 4) (.cons (.natural 3) (.cons (.natural 2) (.cons (.natural 1)
          (.cons (.natural _) .nil))))))))))))
  have hwrites := Json.writes_writeObject Json.spaces_nil hplain (by decide) hvalues rfl
  exact ⟨_, _, ⟨_, List.reverse_perm _, hunknown⟩, ⟨_, List.reverse_perm _, hunknowns⟩,
    hwrites.alone⟩

theorem ofText?_rewritten_backwards :
    greatest.Fits ∧ ofText? greatest.json = some greatest ∧
      ofText? greatestTurned = some greatest ∧ (0 : Report).json ≠ greatest.json := by
  have hfits : greatest.Fits := by decide
  obtain ⟨hjson, -, htexts, hone⟩ := ofText?_rewritten hfits
  refine ⟨hfits, hjson, htexts _ isWrittenBy_greatestTurned, ?_⟩
  intro hsame
  exact absurd (hone 0 (by decide) hsame) (by decide)

end Report

end Masterlist
