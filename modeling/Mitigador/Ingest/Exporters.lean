import Mitigador.Config.Tables
import Mitigador.Ingest.Producer

/-! The exporters table as the inventory reads it (internal/ingest/exporters.go). `ParseAddr` of
net/netip is a parameter. -/

namespace Mitigador.Ingest

open Go Lib

structure ExporterRow where
  ipText : String
  sampleOverride : Int
  integer : Config.IsInteger sampleOverride

inductive ReadError
  | query (cause : String)
  | scan (cause : String)
  | rows (cause : String)
  deriving DecidableEq, Repr

def ReadError.text : ReadError → String
  | .query cause => "inventory: query: " ++ cause
  | .scan cause => "inventory: scan: " ++ cause
  | .rows cause => "inventory: rows: " ++ cause

def stripCIDR (s : String) : String :=
  match s.toList.reverse.dropWhile (· ≠ '/') with
  | [] => s
  | _ :: front => String.ofList front.reverse

variable (parseAddr : String → Option Addr)

/-- The address of a row; a row without one is skipped. -/
def ExporterRow.address (row : ExporterRow) : Option Addr :=
  (parseAddr (stripCIDR row.ipText)).map Addr.unmap

/-- `uint32(sampleOverride)` keeps the low 32 bits. -/
def ExporterRow.exporter (row : ExporterRow) (addr : Addr) : Exporter :=
  ⟨addr, UInt32.ofInt row.sampleOverride⟩

def ExporterRow.store (m : KeyedMap Addr Exporter) (row : ExporterRow) : KeyedMap Addr Exporter :=
  match row.address parseAddr with
  | none => m
  | some addr => m.insert addr (row.exporter addr)

namespace Inventory

/-- `Inventory.Reload` and the text of its error; an error leaves the inventory as it was. -/
def reload (i : Inventory) : Except ReadError (List ExporterRow) → Inventory × Option String
  | .error cause => (i, some cause.text)
  | .ok rows => (⟨rows.foldl (ExporterRow.store parseAddr) ∅⟩, none)

def Filed (i : Inventory) : Prop :=
  ∀ ip exp, i.byIP.lookup ip = some exp → exp.sourceIP = ip ∧ ip.unmap = ip

variable {parseAddr}

theorem lookup_rows {rows : List ExporterRow} {m : KeyedMap Addr Exporter} {ip : Addr}
    {exp : Exporter} (found : (rows.foldl (ExporterRow.store parseAddr) m).lookup ip = some exp) :
    m.lookup ip = some exp ∨
      ∃ row ∈ rows, row.address parseAddr = some ip ∧ exp = row.exporter ip := by
  induction rows generalizing m with
  | nil => exact .inl found
  | cons row rest ih =>
      rw [List.foldl_cons] at found
      rcases ih found with earlier | ⟨later, member, known⟩
      · unfold ExporterRow.store at earlier
        split at earlier
        · exact .inl earlier
        · next addr parsed =>
            rw [KeyedMap.lookup_insert] at earlier
            split at earlier
            · next same =>
                subst same
                exact .inr ⟨row, List.mem_cons_self, parsed, (Option.some.inj earlier).symm⟩
            · exact .inl earlier
      · exact .inr ⟨later, List.mem_cons_of_mem _ member, known⟩

theorem lookup_reload {i : Inventory} {rows : List ExporterRow} {ip : Addr} {exp : Exporter}
    (found : (i.reload parseAddr (.ok rows)).1.byIP.lookup ip = some exp) :
    ∃ row ∈ rows, row.address parseAddr = some ip ∧ exp = row.exporter ip := by
  rcases lookup_rows found with impossible | known
  · contradiction
  · exact known

theorem filed_reload (i : Inventory) (rows : List ExporterRow) :
    (i.reload parseAddr (.ok rows)).1.Filed := by
  intro ip exp found
  obtain ⟨row, -, address, rfl⟩ := lookup_reload found
  obtain ⟨addr, -, rfl⟩ := Option.map_eq_some_iff.mp address
  exact ⟨rfl, addr.unmap_unmap⟩

end Inventory

def plainRow (sampleOverride : Int) (integer : Config.IsInteger sampleOverride) : ExporterRow :=
  ⟨"10.0.0.2/32", sampleOverride, integer⟩

def sampleRow : ExporterRow := plainRow 0 (by decide)

def parseSample (s : String) : Option Addr := if s = "10.0.0.2" then some (.v4 0x0a000002) else none

def sampleInventory : Inventory := ((Inventory.mk ∅).reload parseSample (.ok [sampleRow])).1

end Mitigador.Ingest
