import DocQuery.Proofs.Bson
import DocQuery.Proofs.Compilation.Arguments
import DocQuery.Proofs.Compilation.Exits
import Mathlib.Data.List.Forall2

/-! Insertions and updates pass on what is to be written as it is. -/
namespace DocQuery

/-- What an object holds under a key. -/
def Json.member? (v : Json) (key : String) : Option Json :=
  match v with
  | .object members => Entries.get? members key
  | _ => none

namespace NativeQuery

/-- An argument of the query in its JSON form. -/
def argument? (q : NativeQuery) (key : String) : Option Json :=
  (q.toJson.member? "query").bind fun arguments => arguments.member? key

/-- The JSON form of a query holds what a statement of the kind writes, record by record. -/
def Carries (q : NativeQuery) : StatementKind → Prop
  | .find => True
  | .insert (.one record) =>
      ∃ document, q.argument? "document" = some document ∧ record.toJson.Keeps document
  | .insert (.many records) => ∃ documents, q.argument? "documents" = some (.array documents) ∧
      List.Forall₂ Json.Keeps (records.map Dictionary.toJson) documents
  | .update values => ∃ document, q.argument? "update" = some (.object [("$set", document)]) ∧
      values.toJson.Keeps document
  | .destroy => True

theorem argument?_eq (q : NativeQuery) (key : String) :
    q.argument? key = (q.query.get? key).map Bson.toJson := by
  have hquery : q.toJson.member? "query" = some (.object (Entries.mapValues Bson.toJson q.query)) := by
    rw [toJson, Json.member?, Bson.toJson, Bson.entriesToJson_eq_mapValues]
    rfl
  rw [argument?, hquery, Option.bind_some, Json.member?, Entries.get?_mapValues]

end NativeQuery

namespace Statement

/-- The statement has no options over its arguments, and no date occurs in what it writes. -/
structure WritesPlain (s : Statement) : Prop where
  opts : s.opts = none
  criteriaOpts : s.criteria.bind Criteria.opts = none
  dates : ∀ v ∈ s.values, v.IsDateFree

theorem WritesPlain.insert {s : Statement} {records : Records} (h : s.WritesPlain)
    (hk : s.kind = .insert records) {record : Dictionary} (hm : record ∈ records.toList) :
    ∀ v ∈ record.entries.values, v.IsDateFree := by
  intro v hv
  apply h.dates v
  rw [values, hk]
  exact List.mem_flatMap.2 ⟨record, hm, hv⟩

theorem WritesPlain.update {s : Statement} {values : Dictionary} (h : s.WritesPlain)
    (hk : s.kind = .update values) : ∀ v ∈ values.entries.values, v.IsDateFree := by
  intro v hv
  apply h.dates v
  rw [Statement.values, hk]
  exact hv

end Statement

namespace NativeQuery

theorem carries_one {record : Dictionary} (hdates : ∀ v ∈ record.entries.values, v.IsDateFree)
    {q : NativeQuery} {d : Document} (hd : Bson.ofRecord record = .ok d)
    (hq : q.query = [("document", .document d)]) : q.Carries (.insert (.one record)) := by
  refine ⟨record.toJson.ordered, ?_, Json.keeps_ordered _⟩
  rw [argument?_eq, hq, ← Bson.toJson_ofRecord hdates hd]
  rfl

theorem carries_many {records : List Dictionary}
    (hdates : ∀ record ∈ records, ∀ v ∈ record.entries.values, v.IsDateFree) {q : NativeQuery}
    {ds : List Document} (hds : records.mapM Bson.ofRecord = .ok ds)
    (hq : q.query = [("documents", .array (ds.map .document))]) :
    q.Carries (.insert (.many records)) := by
  have hdocuments : ds.map (fun d => (Bson.document d).toJson) =
      records.map fun record => record.toJson.ordered :=
    map_of_mapM hds fun record hm d hd => Bson.toJson_ofRecord (hdates record hm) hd
  refine ⟨records.map fun record => record.toJson.ordered, ?_, ?_⟩
  · rw [argument?_eq, hq, ← hdocuments, Entries.get?_cons, if_pos rfl, Option.map_some,
      Bson.toJson, Bson.itemsToJson_eq_map, List.map_map]
    rfl
  · rw [List.forall₂_map_left_iff, List.forall₂_map_right_iff, List.forall₂_same]
    intro record hm
    exact Json.keeps_ordered _

theorem carries_update {values : Dictionary} (hdates : ∀ v ∈ values.entries.values, v.IsDateFree)
    {q : NativeQuery} {filter d : Document} (hfilter : filter.get? "update" = none)
    (hd : Bson.ofRecord values = .ok d)
    (hq : q.query = filter ++ [("update", .document [("$set", .document d)])]) :
    q.Carries (.update values) := by
  refine ⟨values.toJson.ordered, ?_, Json.keeps_ordered _⟩
  rw [argument?_eq, hq, Entries.get?_append, hfilter, Option.none_or, Entries.get?_cons, if_pos rfl,
    ← Bson.toJson_ofRecord hdates hd]
  rfl

theorem carries_of_translate {s : Statement} (hs : s.WritesPlain) {q : NativeQuery}
    (h : translate s = .ok q) : q.Carries s.kind := by
  have harguments := arguments_of_translate hs.opts hs.criteriaOpts h
  cases hk : s.kind with
  | find | destroy => trivial
  | insert records =>
    cases records with
    | one record =>
      obtain ⟨-, d, hd, hquery⟩ := arguments_one hk harguments
      exact carries_one (hs.insert hk (by simp [Records.toList])) hd hquery
    | many records =>
      obtain ⟨-, ds, hds, hquery⟩ := arguments_many hk harguments
      exact carries_many (fun record hm => hs.insert hk hm) hds hquery
  | update values =>
    obtain ⟨-, entry, d, hentry, hd, hquery⟩ := arguments_update hk harguments
    obtain ⟨-, filter, -, rfl⟩ := Criteria.filterArguments_eq_ok hentry
    exact carries_update (hs.update hk) (by simp) hd hquery

theorem ofStatement_eq_ok_iff {s : Statement} {q : NativeQuery} :
    ofStatement s = .ok q ↔ s.validate = .ok () ∧ translate s = .ok q := by
  rw [ofStatement, andThen_eq_ok_iff, mapError_eq_ok_iff]

theorem compile_eq_ok_iff {v : Json} {context : Option Json} {s : Statement}
    {report : Report NativeQuery} (hs : Statement.ofJson v = .ok s) :
    compile v context = .ok report ↔
      Dictionary.ofArgument context = .ok report.context ∧ ofStatement s = .ok report.value := by
  have hread : ofJson v = ofStatement s := by
    rw [ofJson, hs, mapError_ok, ok_bind]
  obtain ⟨q, d⟩ := report
  rw [compile, hread]
  cases Dictionary.ofArgument context with
  | error e => simp
  | ok context =>
    cases ofStatement s with
    | error e => simp [exit]
    | ok q => simp [exit, and_comm]

/-- Whoever built or wrote the statement finds its records in the query, one by one, in JSON: the same
values, with nothing but the order of keys changed to that of code points. -/
theorem compile_carries_data {s : Statement} (hs : s.WritesPlain) :
    (∀ q, ofStatement s = .ok q → q.Carries s.kind) ∧
      ∀ v context report, Statement.ofJson v = .ok s → compile v context = .ok report →
        report.value.Carries s.kind := by
  constructor
  · intro q hq
    exact carries_of_translate hs (ofStatement_eq_ok_iff.1 hq).2
  · intro v context report hread hreport
    have hq := ((compile_eq_ok_iff hread).1 hreport).2
    exact carries_of_translate hs (ofStatement_eq_ok_iff.1 hq).2

/-- Integers of three widths, a float, empty containers and keys that are out of order. -/
def ledgerEntry : Json :=
  .object [("total", .number (.int 9000000000 (by decide))), ("lines", .array [
    .object [("price", .number (.float (.zero true))), ("count", .number (.int (-1) (by decide)))],
    .array []]), ("about", .object [])]

def ledgerInsertion : Json :=
  .object [("using", .string "ledger"), ("insert", .array [ledgerEntry, .object []])]

def ledgerStatement : Statement :=
  ⟨"ledger", .insert (.many [.ofList [("total", .number (.int 9000000000 (by decide))),
    ("lines", .array [.object [("price", .number (.float (.zero true))),
      ("count", .number (.int (-1) (by decide)))], .array []]), ("about", .object [])], .empty]),
    none, none⟩

theorem ledger_carries_data :
    (ledgerStatement.WritesPlain ∧ Statement.ofJson ledgerInsertion = .ok ledgerStatement) ∧
      (∃ q, ofStatement ledgerStatement = .ok q ∧ q.Carries ledgerStatement.kind) ∧
      ∃ report, compile ledgerInsertion none = .ok report ∧
        report.value.Carries ledgerStatement.kind := by
  have hvalues : ∀ v ∈ ledgerStatement.values, v.IsDateFree ∧ ¬ v.HoldsHuge := by
    have hvalues : ledgerStatement.values = [.number (.int 9000000000 (by decide)),
        .array [.object [("price", .number (.float (.zero true))),
          ("count", .number (.int (-1) (by decide)))], .array []], .object []] := rfl
    rw [hvalues]
    simp [Json.isDateFree_array_iff, Json.isDateFree_object_iff, Json.holdsHuge_array_iff,
      Json.holdsHuge_object_iff, Json.isDateLike, Json.date?, Json.maxSigned]
  have hplain : ledgerStatement.WritesPlain := ⟨rfl, rfl, fun v hv => (hvalues v hv).1⟩
  have hread : Statement.ofJson ledgerInsertion = .ok ledgerStatement := rfl
  have hvalid : ledgerStatement.validate = .ok () := rfl
  have hsupported : ¬ ledgerStatement.IsUnsupported := by
    rw [Statement.not_isUnsupported_insert_iff hvalid rfl]
    rintro ⟨v, hv, hhuge⟩
    exact (hvalues v hv).2 hhuge
  obtain ⟨q, htranslate⟩ := (translate_supported hvalid).isOk_iff.2 hsupported
  have hq : ofStatement ledgerStatement = .ok q := ofStatement_eq_ok_iff.2 ⟨hvalid, htranslate⟩
  have hreport : compile ledgerInsertion none = .ok ⟨q, none⟩ :=
    (compile_eq_ok_iff hread).2 ⟨rfl, hq⟩
  have hcarries := compile_carries_data hplain
  exact ⟨⟨hplain, hread⟩, ⟨q, hq, hcarries.1 q hq⟩, _, hreport,
    hcarries.2 ledgerInsertion none _ hread hreport⟩

end NativeQuery

end DocQuery
