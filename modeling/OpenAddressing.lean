import OpenAddressing.Count
import OpenAddressing.Dict.Bulk
import OpenAddressing.Dict.Shared
import OpenAddressing.Key.Basic
import OpenAddressing.Proofs.Checked.Faultless
import OpenAddressing.Proofs.Dict.Atomicity
import OpenAddressing.Proofs.Dict.Band
import OpenAddressing.Proofs.Dict.Bare
import OpenAddressing.Proofs.Dict.CaseFolding
import OpenAddressing.Proofs.Dict.Extension
import OpenAddressing.Proofs.Dict.Filtering
import OpenAddressing.Proofs.Dict.Iteration
import OpenAddressing.Proofs.Dict.KeyStorage
import OpenAddressing.Proofs.Dict.Ledger
import OpenAddressing.Proofs.Dict.Presence
import OpenAddressing.Proofs.Dict.Refinement
import OpenAddressing.Proofs.Key.Separation
import OpenAddressing.Proofs.Slots.Arrival
import OpenAddressing.Proofs.Table.Erasure
import OpenAddressing.Proofs.Table.Filtering
import OpenAddressing.Proofs.Table.Histogram
import OpenAddressing.Proofs.Table.Hysteresis
import OpenAddressing.Proofs.Table.Layout
import OpenAddressing.Proofs.Table.Load
import OpenAddressing.Proofs.Table.Lookup
import OpenAddressing.Proofs.Table.Peak
import OpenAddressing.Proofs.Table.Removal
import OpenAddressing.Proofs.Table.Resizing
import OpenAddressing.Slots.Order
import OpenAddressing.Table.Retain
import OpenAddressing.Table.Stats
import OpenAddressing.Table.WellFormed
import OpenAddressing.Text.Show
