import ChatText.Main
import ChatText.Command.Folder
import ChatText.Layout.Label
import ChatText.Layout.Paragraph
import ChatText.Marker.Encode
import ChatText.Marker.Token
import ChatText.Message.Listing
import ChatText.Message.Reply
import ChatText.Message.Transform
import ChatText.Proofs.MarkerTheorems
import ChatText.Proofs.LineTheorems
import ChatText.Proofs.WordTheorems
import ChatText.Proofs.TokenTheorems
import ChatText.Proofs.MarkedGlyphs
import ChatText.Proofs.EncodeTheorems
import ChatText.Proofs.DisplayTheorems
import ChatText.Proofs.ChargeTheorems
import ChatText.Proofs.StripTheorems
import ChatText.Proofs.DeletionTheorems
import ChatText.Proofs.StoredTextTheorems
import ChatText.Proofs.LabelTheorems
import ChatText.Proofs.SegmentTheorems
import ChatText.Proofs.EventTheorems
import ChatText.Proofs.VisitorTheorems
import ChatText.Proofs.FallbackTheorems
import ChatText.Proofs.LinkTheorems
import ChatText.Proofs.ItemTheorems
import ChatText.Proofs.WellFormedTheorems
import ChatText.Proofs.QuotedTheorems
import ChatText.Proofs.ListingTheorems
import ChatText.Proofs.WrapTheorems
import ChatText.Proofs.RegistryTheorems
import ChatText.Proofs.HistoryTheorems
import ChatText.Proofs.GlyphIndexTheorems
import ChatText.Proofs.GlyphWordTheorems
import ChatText.Proofs.CategoryTheorems
import ChatText.Proofs.RewriteTheorems
import ChatText.Proofs.FixpointTheorems
import ChatText.Proofs.DecodeTheorems
import ChatText.Proofs.ParagraphTheorems
import ChatText.Proofs.StandardTheorems
import ChatText.Proofs.UpdateTheorems
import ChatText.Proofs.EncodedTagTheorems
import ChatText.Proofs.BlockTheorems
import ChatText.Proofs.PackingTheorems
import ChatText.Proofs.LayoutTheorems
import ChatText.Proofs.ReplyTheorems
import ChatText.Proofs.EmoticonTheorems
import ChatText.Proofs.PlacementTheorems
import ChatText.Proofs.PriceTheorems
