import MarkPress.Main
import MarkPress.Proofs.Document.Breaks
import MarkPress.Proofs.Document.Date
import MarkPress.Proofs.Document.Faults
import MarkPress.Proofs.Document.Header
import MarkPress.Proofs.Html.Unescape
import MarkPress.Proofs.Log.Line
import MarkPress.Proofs.Region
import MarkPress.Proofs.Render.Bare
import MarkPress.Proofs.Render.Blocks
import MarkPress.Proofs.Render.Code
import MarkPress.Proofs.Render.Locality
import MarkPress.Proofs.Render.Balance
import MarkPress.Proofs.Render.Emphasis
import MarkPress.Proofs.Render.Export
import MarkPress.Proofs.Render.Headings
import MarkPress.Proofs.Render.Links
import MarkPress.Proofs.Render.Lists
import MarkPress.Proofs.Render.Prose
import MarkPress.Proofs.Render.Refusal
import MarkPress.Proofs.Scan.Captured
import MarkPress.Proofs.Scan.Reached
import MarkPress.Proofs.Scan.Names
import MarkPress.Proofs.Scan.Progress
import MarkPress.Proofs.Scan.SectionRun
import MarkPress.Proofs.Settings.ServerPort
import MarkPress.Proofs.Site.Listing
import MarkPress.Proofs.Site.Output
import MarkPress.Proofs.Slug.Words
import MarkPress.Proofs.Template.Fill
import MarkPress.Proofs.Template.Page
import MarkPress.Scan.Access
