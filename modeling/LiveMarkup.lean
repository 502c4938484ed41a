import LiveMarkup.Text.Blank
import LiveMarkup.Text.Split
import LiveMarkup.Text.Kebab
import LiveMarkup.Text.Escape
import LiveMarkup.Text.Lowercase
import LiveMarkup.Text.Quoted
import LiveMarkup.Number.Shortest
import LiveMarkup.OrderedMap
import LiveMarkup.Slab
import LiveMarkup.Name
import LiveMarkup.Node.Make
import LiveMarkup.Template
import LiveMarkup.Field
import LiveMarkup.Event
import LiveMarkup.Node.Markup
import LiveMarkup.ClassList
import LiveMarkup.RandomId
import LiveMarkup.Document.Tree
import LiveMarkup.Document.Edit
import LiveMarkup.Document.Walk
import LiveMarkup.Document.Markup
import LiveMarkup.Document.Outline
import LiveMarkup.Document.Dispatch
import LiveMarkup.Component
import LiveMarkup.Page.Render
import LiveMarkup.Reactive.Machine
import LiveMarkup.Reactive.Shown
import LiveMarkup.Proofs.Document.Forest
import LiveMarkup.Main
import LiveMarkup.Proofs.Document.Operations
import LiveMarkup.Proofs.Page.Binding
import LiveMarkup.Proofs.Node.Portals
import LiveMarkup.Proofs.Page.Shows
import LiveMarkup.Proofs.Page.Refs
import LiveMarkup.Proofs.Page.Behind
import LiveMarkup.Proofs.Page.Build
import LiveMarkup.Proofs.Page.Unmount
import LiveMarkup.Proofs.Page.Patch
import LiveMarkup.Proofs.Document.Count
import LiveMarkup.Proofs.Page.Rendering
import LiveMarkup.Proofs.Page.Pointing
import LiveMarkup.Proofs.Node.Orderly
import LiveMarkup.Proofs.Page.Portals
import LiveMarkup.Proofs.Page.Slots
import LiveMarkup.Proofs.Page.Sound
import LiveMarkup.Proofs.Page.Fresh
import LiveMarkup.Proofs.Template.Grammar
import LiveMarkup.Proofs.Text.Trim
import LiveMarkup.Proofs.Template.Tags
import LiveMarkup.Proofs.Template.Compile
import LiveMarkup.Proofs.Page.Unchanged
import LiveMarkup.Proofs.Document.Links
import LiveMarkup.Proofs.Document.WellFormed
import LiveMarkup.Proofs.Document.Calls
import LiveMarkup.Proofs.Document.Cycles
import LiveMarkup.Proofs.Reactive.History
import LiveMarkup.Proofs.Reactive.Accounts
import LiveMarkup.Proofs.Reactive.Drain
import LiveMarkup.Proofs.Template.ReadBack
import LiveMarkup.Proofs.Template.Shape
import LiveMarkup.Proofs.Document.Below
import LiveMarkup.Proofs.Document.Log
import LiveMarkup.Proofs.Page.Noted
import LiveMarkup.Proofs.Page.Places
import LiveMarkup.Proofs.Page.Attached
import LiveMarkup.Proofs.Page.Ledger
import LiveMarkup.Proofs.Page.Reuse
import LiveMarkup.Proofs.Page.Bystanders
import LiveMarkup.Proofs.Reactive.Handles
import LiveMarkup.Proofs.Document.Rooted
import LiveMarkup.Proofs.Page.Rooted
import LiveMarkup.Proofs.Page.Recycled
import LiveMarkup.Proofs.Page.Markup
import LiveMarkup.Proofs.Number.Whole
import LiveMarkup.Proofs.Document.Walk
import LiveMarkup.Proofs.Page.Rebuilt
import LiveMarkup.Proofs.Counter.View
import LiveMarkup.Proofs.Counter.Session
import LiveMarkup.Proofs.Reactive.Order
import LiveMarkup.Proofs.Page.Alias
import LiveMarkup.Proofs.Page.Falsy
import LiveMarkup.Proofs.Document.Exchange
import LiveMarkup.Proofs.Page.Displayed
import LiveMarkup.Proofs.Page.Cleanup
import LiveMarkup.Proofs.Template.Splice
import LiveMarkup.Proofs.Template.Closing
import LiveMarkup.Proofs.Template.Mismatch
import LiveMarkup.Proofs.Reactive.Notified
import LiveMarkup.Proofs.Reactive.Borrowing
import LiveMarkup.Proofs.Document.Listeners
import LiveMarkup.Proofs.Document.Removed
import LiveMarkup.Proofs.Document.Moved
import LiveMarkup.Proofs.Document.Dispatched
import LiveMarkup.Proofs.Text.Kebab
import LiveMarkup.Proofs.Style.Canonical
import LiveMarkup.Proofs.Document.Order
import LiveMarkup.Proofs.Node.Kept
import LiveMarkup.Proofs.Document.Account
import LiveMarkup.Proofs.Histories
import LiveMarkup.Proofs.Document.Elements
import LiveMarkup.Proofs.OrderedMap.Writes
import LiveMarkup.Proofs.Reactive.Effects
import LiveMarkup.Proofs.Reactive.Delivery
import LiveMarkup.Proofs.Reactive.Tasks
import LiveMarkup.Proofs.Value.Grouping
