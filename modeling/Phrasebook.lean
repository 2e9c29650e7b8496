import Phrasebook.Main
import Phrasebook.Proofs.Agreement
import Phrasebook.Proofs.Resolution
import Phrasebook.Proofs.Atomicity
import Phrasebook.Proofs.Lookups
import Phrasebook.Proofs.Coverage
import Phrasebook.Proofs.TableHistory
import Phrasebook.Proofs.Dedup
import Phrasebook.Proofs.Hygiene
import Phrasebook.Proofs.Idempotence
import Phrasebook.Proofs.Accounting
import Phrasebook.Proofs.Splicing
import Phrasebook.Proofs.Wordings
import Phrasebook.Proofs.Frames
import Phrasebook.Proofs.Layout
import Phrasebook.Proofs.Fitting
import Phrasebook.Proofs.Placement
import Phrasebook.Proofs.Phrases
import Phrasebook.Proofs.Remains
import Phrasebook.Proofs.Kept
import Phrasebook.Proofs.FileOrder
import Phrasebook.Proofs.RunAccounts
import Phrasebook.Proofs.Json
import Phrasebook.Proofs.FileTree
import Phrasebook.Proofs.Persistence
import Phrasebook.Proofs.FileContents
import Phrasebook.Proofs.DryRun
import Phrasebook.Proofs.SlotNaming
import Phrasebook.Proofs.Messages
import Phrasebook.Proofs.Stored
import Phrasebook.Proofs.Doubles
import Phrasebook.Proofs.Printing
import Phrasebook.Proofs.Concat
import Phrasebook.Proofs.Keys
import Phrasebook.Proofs.Cleaning
import Phrasebook.Proofs.Rendering
import Phrasebook.Proofs.Types
import Phrasebook.Proofs.Shifting
import Phrasebook.Proofs.Spelling
import Phrasebook.Proofs.Cursors
import Phrasebook.Proofs.Statements
import Phrasebook.Proofs.Items
import Phrasebook.Proofs.Imports
import Phrasebook.Proofs.Composition
import Phrasebook.Proofs.Planning
import Phrasebook.Proofs.Surfacing
import Phrasebook.Proofs.Changes
import Phrasebook.Proofs.Insertion
import Phrasebook.Proofs.Totals
import Phrasebook.Proofs.PathNames
import Phrasebook.Proofs.Scanning
import Phrasebook.Proofs.LoadTime
import Phrasebook.Proofs.KeyShape
import Phrasebook.Proofs.Balance
import Phrasebook.Proofs.SlotSequence
import Phrasebook.Proofs.RenderedLines
